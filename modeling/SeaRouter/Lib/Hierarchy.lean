import SeaRouter.Lib.Walk

/-!
# Ranked graphs and their canonical hubs

The nodes of an undirected weighted graph have a rank, and a second relation
`U` holds edges that lead to a higher rank, each of them the length of a walk.
`Ranked` asks of `U` only that from each node, on the way to any node whose rank
is not lower, some edge of `U` begins a shortest way.  A contraction hierarchy
is such a graph.

`IsHub u h` says that `h` has the highest rank on all shortest ways from `u` to
`h`.  `Ranked.exists_hub` finds for each pair of joined nodes a common hub on a
shortest way between them, which is what a two-hop labelling needs, and
`Ranked.isLeast_hubs` says that such a labelling needs no label but these.
`meet` is for two searches upwards that stop at a given rank.
-/

namespace WGraph

variable {V : Type} {E U : V → V → Int → Prop} {rank : V → Int}

/-- `y` is on a shortest way from `u` to `w`. -/
def OnShortest (E : V → V → Int → Prop) (u w y : V) : Prop :=
  ∃ a b, IsDist E u y a ∧ IsDist E y w b ∧ IsDist E u w (a + b)

theorem OnShortest.of_walk {u w y : V} {a b : Int} (ha : Walk E u y a) (hb : Walk E y w b)
    (hd : IsDist E u w (a + b)) : OnShortest E u w y :=
  ⟨a, b, (hd.split ha hb).1, (hd.split ha hb).2, hd⟩

theorem OnShortest.isDist {u w y : V} (h : OnShortest E u w y) :
    (∃ a, IsDist E u y a) ∧ ∃ b, IsDist E y w b := by
  obtain ⟨a, b, ha, hb, _⟩ := h
  exact ⟨⟨a, ha⟩, ⟨b, hb⟩⟩

theorem OnShortest.add {u w y : V} (h : OnShortest E u w y) {a b d : Int} (ha : IsDist E u y a)
    (hb : IsDist E y w b) (hd : IsDist E u w d) : a + b = d := by
  obtain ⟨a', b', ha', hb', hd'⟩ := h
  rw [ha.unique ha', hb.unique hb', hd.unique hd']

theorem OnShortest.symm (hsymm : ∀ u v l, E u v l → E v u l) {u w y : V}
    (h : OnShortest E u w y) : OnShortest E w u y := by
  obtain ⟨a, b, ha, hb, hd⟩ := h
  refine ⟨b, a, hb.symm hsymm, ha.symm hsymm, ?_⟩
  rw [add_comm]
  exact hd.symm hsymm

/-- A node on a shortest way to `y` is on one over `y`, and before `y`. -/
theorem OnShortest.before {u w y z : V} (h : OnShortest E u w y) (hz : OnShortest E u y z) :
    OnShortest E u w z ∧ OnShortest E z w y := by
  obtain ⟨a, b, ha, hb, hd⟩ := h
  obtain ⟨p, q, hp, hq, hpq⟩ := hz
  have hsum : a = p + q := ha.unique hpq
  rw [hsum, add_assoc] at hd
  have hrest := (hd.split hp.1 (hq.1.append hb.1)).2
  exact ⟨⟨p, q + b, hp, hrest, hd⟩, ⟨q, b, hq, hb, hrest⟩⟩

/-- A node on a shortest way from `y` is on one over `y`, and behind `y`. -/
theorem OnShortest.behind {u w y z : V} (h : OnShortest E u w y) (hz : OnShortest E y w z) :
    OnShortest E u w z ∧ OnShortest E u z y := by
  obtain ⟨a, b, ha, hb, hd⟩ := h
  obtain ⟨p, q, hp, hq, hpq⟩ := hz
  have hsum : b = p + q := hb.unique hpq
  rw [hsum, ← add_assoc] at hd
  have hrest := (hd.split (ha.1.append hp.1) hq.1).1
  exact ⟨⟨a + p, q, hrest, hq, hd⟩, ⟨a, p, ha, hp, hrest⟩⟩

/-- `h` has the highest rank on all shortest ways from `u` to `h`. -/
structure IsHub (E : V → V → Int → Prop) (rank : V → Int) (u h : V) : Prop where
  joined : ∃ d, IsDist E u h d
  top : ∀ y, OnShortest E u h y → y ≠ h → rank y < rank h

/-- A graph with ranks and with edges `U` upwards that begin shortest ways. -/
structure Ranked (E U : V → V → Int → Prop) (rank : V → Int) : Prop where
  pos : ∀ u v l, E u v l → 0 < l
  symm : ∀ u v l, E u v l → E v u l
  bounded : ∃ B, ∀ u, rank u ≤ B
  walk : ∀ u x l, U u x l → Walk E u x l
  up : ∀ u x l, U u x l → rank u < rank x
  hop : ∀ u w d, IsDist E u w d → w ≠ u → rank u ≤ rank w →
    ∃ x l b, U u x l ∧ IsDist E x w b ∧ l + b = d

namespace Ranked

theorem nonneg (h : Ranked E U rank) (u v : V) (l : Int) (he : E u v l) : 0 ≤ l :=
  le_of_lt (h.pos u v l he)

theorem isHub_self (h : Ranked E U rank) (u : V) : IsHub E rank u u := by
  refine ⟨⟨0, isDist_self h.nonneg u⟩, ?_⟩
  intro y hy hne
  exfalso
  obtain ⟨a, b, ha, hb, hd⟩ := hy
  have h0 := hd.unique (isDist_self h.nonneg u)
  have h1 := ha.1.pos h.pos (Ne.symm hne)
  have h2 := hb.1.pos h.pos hne
  omega

end Ranked

/-- The hubs of `u` other than `u` have a higher rank. -/
theorem IsHub.rank_lt (hnn : ∀ u v l, E u v l → 0 ≤ l) {u w : V} (h : IsHub E rank u w)
    (hne : u ≠ w) : rank u < rank w := by
  obtain ⟨d, hd⟩ := h.joined
  refine h.top u ⟨0, d, isDist_self hnn u, hd, ?_⟩ hne
  rw [zero_add]
  exact hd

/-- A hub of `u` is one of each node on a shortest way to it. -/
theorem IsHub.of_onShortest {u w x : V} (h : IsHub E rank u w) (hx : OnShortest E u w x) :
    IsHub E rank x w :=
  ⟨hx.isDist.2, fun y hy hne => h.top y (hx.behind hy).1 hne⟩

namespace Ranked

/-- The node of the highest rank on the shortest ways between two nodes is a hub
of both. -/
theorem exists_hub (h : Ranked E U rank) {u w : V} {d : Int} (hd : IsDist E u w d) :
    ∃ g, OnShortest E u w g ∧ IsHub E rank u g ∧ IsHub E rank w g ∧
      ∀ y, OnShortest E u w y → rank y ≤ rank g := by
  obtain ⟨B, hB⟩ := h.bounded
  obtain ⟨m, ⟨g, hg, rfl⟩, hmax⟩ := Int.exists_greatest_of_bdd
    (P := fun k => ∃ y, OnShortest E u w y ∧ rank y = k)
    ⟨B, fun k hk => by obtain ⟨y, _, rfl⟩ := hk; exact hB y⟩
    ⟨rank u, u, ⟨0, d, isDist_self h.nonneg u, hd, by rw [zero_add]; exact hd⟩, rfl⟩
  -- no other node on the way has this rank: a hop from it would lead higher
  have hunique : ∀ y, OnShortest E u w y → y ≠ g → OnShortest E u g y ∨ OnShortest E w g y →
      rank y < rank g := by
    intro y hy hne hside
    have hle := hmax (rank y) ⟨y, hy, rfl⟩
    rcases lt_or_eq_of_le hle with hlt | heq
    · exact hlt
    · exfalso
      have hyg : ∃ e, IsDist E y g e := by
        rcases hside with hside | hside
        · exact hside.isDist.2
        · exact hside.isDist.2
      obtain ⟨e, he⟩ := hyg
      obtain ⟨x, l, b, hU, hb, hsum⟩ := h.hop y g e he (Ne.symm hne) (le_of_eq heq)
      have hx : OnShortest E y g x := OnShortest.of_walk (h.walk y x l hU) hb.1 (hsum ▸ he)
      have hxw : OnShortest E u w x := by
        rcases hside with hside | hside
        · exact (hg.before (hside.behind hx).1).1
        · exact ((hg.symm h.symm).before (hside.behind hx).1).1.symm h.symm
      have := hmax (rank x) ⟨x, hxw, rfl⟩
      have := h.up y x l hU
      omega
  refine ⟨g, hg, ⟨hg.isDist.1, ?_⟩, ⟨(hg.symm h.symm).isDist.1, ?_⟩,
    fun y hy => hmax _ ⟨y, hy, rfl⟩⟩
  · intro y hy hne
    exact hunique y (hg.before hy).1 hne (Or.inl hy)
  · intro y hy hne
    exact hunique y (((hg.symm h.symm).before hy).1.symm h.symm) hne (Or.inr hy)

/-- When `w` is not a hub of `u`, a common hub of both cuts the way to `w`. -/
theorem exists_hub_of_not_isHub (h : Ranked E U rank) {u w : V} {d : Int}
    (hd : IsDist E u w d) (hnot : ¬ IsHub E rank u w) :
    ∃ g, g ≠ w ∧ OnShortest E u w g ∧ IsHub E rank u g ∧ IsHub E rank w g := by
  obtain ⟨g, hg, hu, hw, _⟩ := h.exists_hub hd
  refine ⟨g, ?_, hg, hu, hw⟩
  rintro rfl
  exact hnot hu

end Ranked

/-- `B u g d` says that `u` has the label `g` with the distance `d`.  The labels are
exact and lead upwards, and two joined nodes of `S` have a common one on a shortest
way between them. -/
structure Labelling (E : V → V → Int → Prop) (S : V → Prop) (rank : V → Int)
    (B : V → V → Int → Prop) : Prop where
  exact : ∀ u g d, B u g d → IsDist E u g d
  up : ∀ u g d, B u g d → g ≠ u → rank u < rank g
  cover : ∀ u w d, S u → S w → IsDist E u w d → ∃ g a b, B u g a ∧ B w g b ∧ a + b = d

/-- No labelling does without a hub: the common label of `u` and its hub `g` is not
above `g`, and below `g` the label of `g` would lead downwards. -/
theorem Labelling.of_isHub {S : V → Prop} {B : V → V → Int → Prop} (h : Labelling E S rank B)
    (hsymm : ∀ u v l, E u v l → E v u l) {u g : V} {d : Int} (hu : S u) (hg : S g)
    (hhub : IsHub E rank u g) (hd : IsDist E u g d) : B u g d := by
  obtain ⟨x, a, b, hux, hgx, hab⟩ := h.cover u g d hu hg hd
  have hback := (h.exact g x b hgx).symm hsymm
  have hon : OnShortest E u g x := ⟨a, b, h.exact u x a hux, hback, hab ▸ hd⟩
  by_cases hxg : x = g
  · subst hxg
    rwa [(h.exact u x a hux).unique hd] at hux
  · have hbelow := hhub.top x hon hxg
    have habove := h.up g x b hgx hxg
    omega

/-- The hubs are the least labelling of nodes that have their hubs among them. -/
theorem Ranked.isLeast_hubs (h : Ranked E U rank) {S : V → Prop}
    (hS : ∀ u g, S u → IsHub E rank u g → S g) :
    IsLeast {B | Labelling E S rank B} fun u g d => S u ∧ IsHub E rank u g ∧ IsDist E u g d := by
  constructor
  · refine ⟨fun u g d hB => hB.2.2, fun u g d hB hne => hB.2.1.rank_lt h.nonneg (Ne.symm hne), ?_⟩
    intro u w d hu hw hd
    obtain ⟨g, hon, hug, hwg, _⟩ := h.exists_hub hd
    obtain ⟨a, ha⟩ := hug.joined
    obtain ⟨b, hb⟩ := hwg.joined
    exact ⟨g, a, b, ⟨hu, hug, ha⟩, ⟨hw, hwg, hb⟩, hon.add ha (hb.symm h.symm) hd⟩
  · intro B hB u g d hhub
    exact hB.of_isHub h.symm hhub.1 (hS u g hhub.1 hhub.2.1) hhub.2.1 hhub.2.2

/-- Two searches upwards, from `s` and from `t`, that go on below the rank
`cut`, meet in a node of a shortest way or reach two nodes of one whose ranks
are not below `cut`. -/
theorem meet (hsymm : ∀ u v l, E u v l → E v u l) {cut B : Int} (hB : ∀ u, rank u ≤ B)
    (hup : ∀ u x l, U u x l → rank u < rank x)
    (hhop : ∀ u w d, rank u < cut → IsDist E u w d → w ≠ u → rank u ≤ rank w →
      ∃ x l b, U u x l ∧ IsDist E x w b ∧ l + b = d) :
    ∀ (k : Nat) (s t : V) (d : Int), (B - rank s).toNat + (B - rank t).toNat = k →
      IsDist E s t d →
      ∃ x y a m c, Walk U s x a ∧ Walk U t y c ∧ IsDist E x y m ∧ a + m + c = d ∧
        (x = y ∨ cut ≤ rank x ∧ cut ≤ rank y) := by
  intro k
  induction k using Nat.strong_induction_on with
  | _ k ih =>
    intro s t d hk hd
    -- a hop from the node of the lower rank
    have hstep : ∀ s t : V, (B - rank s).toNat + (B - rank t).toNat = k → IsDist E s t d → t ≠ s →
        rank s ≤ rank t → rank s < cut →
        ∃ x y a m c, Walk U s x a ∧ Walk U t y c ∧ IsDist E x y m ∧ a + m + c = d ∧
          (x = y ∨ cut ≤ rank x ∧ cut ≤ rank y) := by
      intro s t hk hd hne hle hcut
      obtain ⟨z, l, b, hU, hb, hsum⟩ := hhop s t d hcut hd hne hle
      have h1 := hup s z l hU
      have h2 := hB z
      obtain ⟨x, y, a, m, c, hx, hy, hm, hamc, hend⟩ :=
        ih ((B - rank z).toNat + (B - rank t).toNat) (by omega) z t b rfl hb
      exact ⟨x, y, l + a, m, c, Walk.cons hU hx, hy, hm, by omega, hend⟩
    by_cases hst : t = s
    · subst hst
      exact ⟨t, t, 0, d, 0, Walk.nil t, Walk.nil t, hd, by omega, Or.inl rfl⟩
    · by_cases hcut : cut ≤ rank s ∧ cut ≤ rank t
      · exact ⟨s, t, 0, d, 0, Walk.nil s, Walk.nil t, hd, by omega, Or.inr hcut⟩
      · rcases le_total (rank s) (rank t) with hle | hle
        · exact hstep s t hk hd hst hle (by omega)
        · obtain ⟨x, y, a, m, c, hx, hy, hm, hamc, hend⟩ :=
            hstep t s (by omega) (hd.symm hsymm) (Ne.symm hst) hle (by omega)
          exact ⟨y, x, c, m, a, hy, hx, hm.symm hsymm, by omega,
            hend.imp Eq.symm And.symm⟩

end WGraph
