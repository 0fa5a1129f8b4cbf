import Mathlib.Tactic

/-!
# Walks and distances in a weighted graph

A graph is the relation `E u v l`: an edge leads from `u` to `v` and has the
length `l`.  Parallel edges and one-way edges are allowed.  `Walk E u v L` is
a walk of total length `L`, and `IsDist E u v d` says that `d` is the length
of a shortest one.  There is no distance between nodes that no walk joins, so
"unreachable" is the absence of a `d`.

`isDist_contract` is the general fact behind node contraction: a set of nodes,
no two of them joined by an edge, is taken out of the graph and every shortest
two-edge detour over one of them is replaced by an edge.  The distances
between the nodes that stay do not change.
-/

namespace WGraph

variable {V : Type} {E E' : V → V → Int → Prop}

/-- A walk from `u` to `v` of total length `L`. -/
inductive Walk (E : V → V → Int → Prop) : V → V → Int → Prop
  | nil (u : V) : Walk E u u 0
  | cons {u v w : V} {l L : Int} : E u v l → Walk E v w L → Walk E u w (l + L)

theorem Walk.single {u v : V} {l : Int} (h : E u v l) : Walk E u v l := by
  have := Walk.cons h (Walk.nil v)
  rwa [add_zero] at this

theorem Walk.append {u v w : V} {L L' : Int} (h : Walk E u v L) (h' : Walk E v w L') :
    Walk E u w (L + L') := by
  induction h with
  | nil u =>
    rw [zero_add]
    exact h'
  | cons he _ ih =>
    rw [add_assoc]
    exact Walk.cons he (ih h')

theorem Walk.snoc {u v w : V} {L l : Int} (h : Walk E u v L) (he : E v w l) :
    Walk E u w (L + l) :=
  h.append (Walk.single he)

/-- A walk that is not empty ends with an edge. -/
theorem Walk.exists_last {u v : V} {L : Int} (h : Walk E u v L) :
    (u = v ∧ L = 0) ∨ ∃ x L' l, Walk E u x L' ∧ E x v l ∧ L = L' + l := by
  induction h with
  | nil u => exact Or.inl ⟨rfl, rfl⟩
  | @cons u x v l L he hw ih =>
    right
    rcases ih with ⟨rfl, rfl⟩ | ⟨y, L', l', hw', he', rfl⟩
    · exact ⟨u, 0, l, Walk.nil u, he, by omega⟩
    · exact ⟨y, l + L', l', Walk.cons he hw', he', by omega⟩

theorem Walk.reverse (hsymm : ∀ u v l, E u v l → E v u l) {u v : V} {L : Int}
    (h : Walk E u v L) : Walk E v u L := by
  induction h with
  | nil u => exact Walk.nil u
  | cons he _ ih =>
    rw [add_comm]
    exact ih.snoc (hsymm _ _ _ he)

/-- No edge climbs more than its length, so no walk does. -/
theorem Walk.climb_le (height : V → Int) (h : ∀ u v l, E u v l → height v - height u ≤ l)
    {u v : V} {L : Int} (hw : Walk E u v L) : height v - height u ≤ L := by
  induction hw with
  | nil u => omega
  | cons he _ ih =>
    have := h _ _ _ he
    omega

/-- A walk whose edges are all walks of another graph is a walk there. -/
theorem Walk.trans_edges (h : ∀ u v l, E u v l → Walk E' u v l) {u v : V} {L : Int}
    (hw : Walk E u v L) : Walk E' u v L := by
  induction hw with
  | nil u => exact Walk.nil u
  | cons he _ ih => exact (h _ _ _ he).append ih

theorem Walk.nonneg (hnn : ∀ u v l, E u v l → 0 ≤ l) {u v : V} {L : Int}
    (h : Walk E u v L) : 0 ≤ L := by
  induction h with
  | nil u => exact le_refl 0
  | cons he _ ih => exact add_nonneg (hnn _ _ _ he) ih

theorem Walk.pos (hpos : ∀ u v l, E u v l → 0 < l) {u v : V} {L : Int}
    (h : Walk E u v L) (hne : u ≠ v) : 0 < L := by
  cases h with
  | nil => exact absurd rfl hne
  | cons he hw =>
    have h1 := hpos _ _ _ he
    have h2 := hw.nonneg fun u v l h => le_of_lt (hpos u v l h)
    omega

/-- A walk stays inside of a set that its first node is in and no edge leaves. -/
theorem Walk.mem_of_closed {P : V → Prop} (hcl : ∀ u v l, E u v l → P u → P v) {u v : V}
    {L : Int} (h : Walk E u v L) (hu : P u) : P v := by
  induction h with
  | nil u => exact hu
  | cons he _ ih => exact ih (hcl _ _ _ he hu)

/-- A walk along which the rank of the nodes rises takes no edge twice, so it is not
longer than all edges together; `ids` are the edges, with their starts and lengths. -/
theorem Walk.le_sum {ι : Type} {ids : Finset ι} {start : ι → V} {len : ι → Int} {rank : V → Int}
    (hnn : ∀ i ∈ ids, 0 ≤ len i)
    (hE : ∀ u v l, E u v l → rank u < rank v ∧ ∃ i ∈ ids, start i = u ∧ len i = l)
    {u v : V} {L : Int} (h : Walk E u v L) : L ≤ ∑ i ∈ ids, len i := by
  classical
  -- only edges from the rank of `u` on are taken
  have hle : L ≤ ∑ i ∈ ids with rank u ≤ rank (start i), len i := by
    induction h with
    | nil u => exact Finset.sum_nonneg fun i hi => hnn i (Finset.mem_filter.mp hi).1
    | @cons u x v l L he _ ih =>
      obtain ⟨hlt, i, hi, rfl, rfl⟩ := hE u x l he
      have hnew : i ∉ ids.filter fun j => rank x ≤ rank (start j) := by
        intro hmem
        have := (Finset.mem_filter.mp hmem).2
        omega
      have hsub : insert i (ids.filter fun j => rank x ≤ rank (start j)) ⊆
          ids.filter fun j => rank (start i) ≤ rank (start j) := by
        intro j hj
        rcases Finset.mem_insert.mp hj with rfl | hj
        · exact Finset.mem_filter.mpr ⟨hi, le_refl _⟩
        · obtain ⟨hmem, hrank⟩ := Finset.mem_filter.mp hj
          exact Finset.mem_filter.mpr ⟨hmem, by omega⟩
      calc len i + L ≤ len i + ∑ j ∈ ids with rank x ≤ rank (start j), len j := by omega
        _ = ∑ j ∈ insert i (ids.filter fun j => rank x ≤ rank (start j)), len j :=
          (Finset.sum_insert hnew).symm
        _ ≤ _ := Finset.sum_le_sum_of_subset_of_nonneg hsub fun j hj _ =>
          hnn j (Finset.mem_filter.mp hj).1
  exact le_trans hle (Finset.sum_le_sum_of_subset_of_nonneg (Finset.filter_subset _ _)
    fun i hi _ => hnn i hi)

/-! ## Paths as lists of nodes -/

/-- The nodes of a walk from `u` to `v` of total length `L`, in order. -/
inductive IsPath (E : V → V → Int → Prop) : List V → V → V → Int → Prop
  | nil (u : V) : IsPath E [u] u u 0
  | cons {p : List V} {u v w : V} {l L : Int} : E u v l → IsPath E p v w L →
      IsPath E (u :: p) u w (l + L)

theorem IsPath.walk {p : List V} {u v : V} {L : Int} (h : IsPath E p u v L) : Walk E u v L := by
  induction h with
  | nil u => exact Walk.nil u
  | cons he _ ih => exact Walk.cons he ih

theorem IsPath.snoc {p : List V} {u v w : V} {L l : Int} (h : IsPath E p u v L)
    (he : E v w l) : IsPath E (p ++ [w]) u w (L + l) := by
  induction h with
  | nil u =>
    have := IsPath.cons he (IsPath.nil w)
    rwa [add_zero, ← zero_add l] at this
  | cons h1 _ ih =>
    rw [add_assoc]
    exact IsPath.cons h1 (ih he)

/-- Two paths that meet; the node at which they meet is listed once. -/
theorem IsPath.append {p q : List V} {u v w : V} {L L' : Int} (h : IsPath E p u v L)
    (h' : IsPath E q v w L') : IsPath E (p.dropLast ++ q) u w (L + L') := by
  induction h with
  | nil u =>
    rw [zero_add]
    exact h'
  | @cons p u v _ l L he hp ih =>
    have hne : p ≠ [] := by
      rintro rfl
      cases hp
    rw [List.dropLast_cons_of_ne_nil hne, add_assoc]
    exact IsPath.cons he (ih h')

theorem IsPath.reverse (hsymm : ∀ u v l, E u v l → E v u l) {p : List V} {u v : V} {L : Int}
    (h : IsPath E p u v L) : IsPath E p.reverse v u L := by
  induction h with
  | nil u => exact IsPath.nil u
  | cons he _ ih =>
    rw [List.reverse_cons, add_comm]
    exact ih.snoc (hsymm _ _ _ he)

theorem IsPath.forall_mem {P : V → Prop} (hcl : ∀ u v l, E u v l → P u → P v) {p : List V} {u v : V}
    {L : Int} (h : IsPath E p u v L) (hu : P u) : ∀ x ∈ p, P x := by
  induction h with
  | nil u =>
    intro x hx
    rw [List.mem_singleton] at hx
    exact hx ▸ hu
  | cons he _ ih =>
    intro x hx
    cases hx with
    | head => exact hu
    | tail _ hx => exact ih (hcl _ _ _ he hu) x hx

theorem IsPath.head?_eq {p : List V} {u v : V} {L : Int} (h : IsPath E p u v L) :
    p.head? = some u := by
  cases h <;> rfl

theorem IsPath.getLast?_eq {p : List V} {u v : V} {L : Int} (h : IsPath E p u v L) :
    p.getLast? = some v := by
  induction h with
  | nil u => rfl
  | cons _ _ ih => rw [List.getLast?_cons, ih]; rfl

/-! ## Distances -/

/-- `d` is the length of a shortest walk from `u` to `v`. -/
def IsDist (E : V → V → Int → Prop) (u v : V) (d : Int) : Prop :=
  Walk E u v d ∧ ∀ L, Walk E u v L → d ≤ L

theorem IsDist.unique {u v : V} {d d' : Int} (h : IsDist E u v d) (h' : IsDist E u v d') :
    d = d' :=
  le_antisymm (h.2 _ h'.1) (h'.2 _ h.1)

/-- Nodes that a walk joins have a distance. -/
theorem exists_isDist (hnn : ∀ u v l, E u v l → 0 ≤ l) {u v : V} {L : Int}
    (h : Walk E u v L) : ∃ d, IsDist E u v d := by
  classical
  have hex : ∃ n : Nat, Walk E u v n :=
    ⟨L.toNat, by rwa [Int.toNat_of_nonneg (h.nonneg hnn)]⟩
  refine ⟨Nat.find hex, Nat.find_spec hex, ?_⟩
  intro L' h'
  have h0 := h'.nonneg hnn
  have hle := Nat.find_min' hex (m := L'.toNat) (by rwa [Int.toNat_of_nonneg h0])
  omega

theorem isDist_self (hnn : ∀ u v l, E u v l → 0 ≤ l) (u : V) : IsDist E u u 0 :=
  ⟨Walk.nil u, fun _ h => h.nonneg hnn⟩

theorem IsDist.nonneg (hnn : ∀ u v l, E u v l → 0 ≤ l) {u v : V} {d : Int}
    (h : IsDist E u v d) : 0 ≤ d :=
  h.1.nonneg hnn

theorem IsDist.symm (hsymm : ∀ u v l, E u v l → E v u l) {u v : V} {d : Int}
    (h : IsDist E u v d) : IsDist E v u d :=
  ⟨h.1.reverse hsymm, fun _ h' => h.2 _ (h'.reverse hsymm)⟩

/-- Both parts of a shortest walk are shortest walks. -/
theorem IsDist.split {u v w : V} {a b : Int} (h : IsDist E u w (a + b)) (ha : Walk E u v a)
    (hb : Walk E v w b) : IsDist E u v a ∧ IsDist E v w b := by
  refine ⟨⟨ha, fun L hL => ?_⟩, ⟨hb, fun L hL => ?_⟩⟩
  · have := h.2 _ (hL.append hb)
    omega
  · have := h.2 _ (ha.append hL)
    omega

/-- A walk over `v` that is as short as the walks to and from `v` allow is as
short as their distances allow. -/
theorem IsDist.add_le {u v w : V} {d a b : Int} (h : IsDist E u w d) (ha : Walk E u v a)
    (hb : Walk E v w b) : d ≤ a + b :=
  h.2 _ (ha.append hb)

/-- A distance in a graph with positive lengths is not greater than all edges together:
on a shortest walk the distance to its end falls. -/
theorem IsDist.le_sum {ι : Type} {ids : Finset ι} {start : ι → V} {len : ι → Int}
    (hnn : ∀ i ∈ ids, 0 ≤ len i) (hpos : ∀ u v l, E u v l → 0 < l)
    (hE : ∀ u v l, E u v l → ∃ i ∈ ids, start i = u ∧ len i = l)
    {u t : V} {d : Int} (h : IsDist E u t d) : d ≤ ∑ i ∈ ids, len i := by
  have hrest : ∀ x, ∃ a, ∀ b, IsDist E x t b → b = a := by
    intro x
    by_cases hx : ∃ a, IsDist E x t a
    · obtain ⟨a, ha⟩ := hx
      exact ⟨a, fun b hb => hb.unique ha⟩
    · exact ⟨0, fun b hb => absurd ⟨b, hb⟩ hx⟩
  choose rest hrest using hrest
  -- the edges that begin shortest walks to `t`
  have hwalk : Walk (fun x y l => E x y l ∧ IsDist E x t (rest x) ∧ rest x = l + rest y) u t d := by
    obtain ⟨hw, hmin⟩ := h
    induction hw with
    | nil u => exact Walk.nil u
    | @cons x y t l L he hw ih =>
      have hsplit := IsDist.split ⟨Walk.cons he hw, hmin⟩ (Walk.single he) hw
      have hx := hrest x _ ⟨Walk.cons he hw, hmin⟩
      have hy := hrest y _ hsplit.2
      refine Walk.cons ⟨he, ?_, by omega⟩ (ih hrest hsplit.2.2)
      rw [← hx]
      exact ⟨Walk.cons he hw, hmin⟩
  have hstep : ∀ x y l, (E x y l ∧ IsDist E x t (rest x) ∧ rest x = l + rest y) →
      - rest x < - rest y ∧ ∃ i ∈ ids, start i = x ∧ len i = l := by
    intro x y l hxy
    have hl := hpos x y l hxy.1
    have hsum := hxy.2.2
    exact ⟨by omega, hE x y l hxy.1⟩
  exact Walk.le_sum hnn hstep hwalk

/-- Two graphs have the same distance between two nodes when each walk of one
has a walk of the other that is not longer. -/
theorem isDist_congr {u v : V} (h : ∀ L, Walk E u v L → ∃ L', L' ≤ L ∧ Walk E' u v L')
    (h' : ∀ L, Walk E' u v L → ∃ L', L' ≤ L ∧ Walk E u v L') (d : Int) :
    IsDist E u v d ↔ IsDist E' u v d := by
  have key : ∀ {F F' : V → V → Int → Prop},
      (∀ L, Walk F u v L → ∃ L', L' ≤ L ∧ Walk F' u v L') →
      (∀ L, Walk F' u v L → ∃ L', L' ≤ L ∧ Walk F u v L') →
      IsDist F u v d → IsDist F' u v d := by
    intro F F' hF hF' hd
    have hmin : ∀ L, Walk F' u v L → d ≤ L := by
      intro L hL
      obtain ⟨L', hle, hw⟩ := hF' L hL
      have := hd.2 _ hw
      omega
    obtain ⟨L', hle, hw⟩ := hF d hd.1
    have heq : L' = d := le_antisymm hle (hmin L' hw)
    exact ⟨heq ▸ hw, hmin⟩
  exact ⟨key h h', key h' h⟩

/-- A shortest way to `t` takes no edge of `t`, so that one more edge, from there, is not
among its edges. -/
theorem IsDist.add_le_sum {ι : Type} {ids : Finset ι} {start : ι → V} {len : ι → Int}
    (hnn : ∀ i ∈ ids, 0 ≤ len i) (hpos : ∀ u v l, E u v l → 0 < l)
    (hE : ∀ u v l, E u v l → ∃ i ∈ ids, start i = u ∧ len i = l)
    {u t w : V} {d l : Int} (h : IsDist E u t d) (he : E t w l) : d + l ≤ ∑ i ∈ ids, len i := by
  classical
  have hcut : ∀ {u t : V} {L : Int}, Walk E u t L →
      ∃ L', L' ≤ L ∧ Walk (fun x y m => E x y m ∧ x ≠ t) u t L' := by
    intro u t L hL
    induction hL with
    | nil t => exact ⟨0, le_refl 0, Walk.nil t⟩
    | @cons x y t m L hxy hw ih =>
      by_cases hxt : x = t
      · subst hxt
        have := (Walk.cons hxy hw).nonneg fun u v l h => le_of_lt (hpos u v l h)
        exact ⟨0, this, Walk.nil x⟩
      · obtain ⟨L', hle, hw'⟩ := ih
        exact ⟨m + L', by omega, Walk.cons ⟨hxy, hxt⟩ hw'⟩
  have hd : IsDist (fun x y m => E x y m ∧ x ≠ t) u t d :=
    (isDist_congr (fun L hL => hcut hL)
      (fun L hL => ⟨L, le_refl L, hL.trans_edges fun _ _ _ hxy => Walk.single hxy.1⟩) d).mp h
  have hstep : ∀ x y m, (E x y m ∧ x ≠ t) →
      ∃ i ∈ ids.filter (fun i => start i ≠ t), start i = x ∧ len i = m := by
    intro x y m hxy
    obtain ⟨i, hi, hx, hm⟩ := hE x y m hxy.1
    exact ⟨i, Finset.mem_filter.mpr ⟨hi, fun hs => hxy.2 (hx.symm.trans hs)⟩, hx, hm⟩
  have hle := hd.le_sum (fun i hi => hnn i (Finset.mem_filter.mp hi).1)
    (fun x y m hxy => hpos x y m hxy.1) hstep
  obtain ⟨i, hi, hs, rfl⟩ := hE t w l he
  have hnew : i ∉ ids.filter fun j => start j ≠ t := fun hmem => (Finset.mem_filter.mp hmem).2 hs
  have hsub : insert i (ids.filter fun j => start j ≠ t) ⊆ ids :=
    Finset.insert_subset hi (Finset.filter_subset _ _)
  calc d + len i ≤ len i + ∑ j ∈ ids with start j ≠ t, len j := by omega
    _ = ∑ j ∈ insert i (ids.filter fun j => start j ≠ t), len j := (Finset.sum_insert hnew).symm
    _ ≤ _ := Finset.sum_le_sum_of_subset_of_nonneg hsub fun j hj _ => hnn j hj

/-! ## Contraction -/

section contract

variable {C : V → Prop}

/-- A shortest walk between nodes outside of `C` has a walk of the same length
in the contracted graph.  The induction is on the length: the walk loses its
first edge, or its first two when the first one leads into `C`. -/
theorem exists_walk_of_isDist_contract (hpos : ∀ u v l, E u v l → 0 < l)
    (hindep : ∀ u v l, E u v l → C u → ¬ C v)
    (hkeep : ∀ u v l, E u v l → ¬ C u → ¬ C v → E' u v l)
    (hshort : ∀ u c w a b, C c → E u c a → E c w b → u ≠ w → IsDist E u w (a + b) →
      E' u w (a + b)) :
    ∀ (n : Nat) (u w : V) (d : Int), d.toNat = n → ¬ C u → ¬ C w → IsDist E u w d →
      Walk E' u w d := by
  have hnn : ∀ u v l, E u v l → 0 ≤ l := fun u v l h => le_of_lt (hpos u v l h)
  intro n
  induction n using Nat.strong_induction_on with
  | _ n ih =>
    intro u w d hn hu hw hd
    obtain ⟨hwalk, hmin⟩ := hd
    cases hwalk with
    | nil => exact Walk.nil u
    | @cons _ x _ l L hux hxw =>
      have hl := hpos _ _ _ hux
      have hL := hxw.nonneg hnn
      obtain ⟨hdx, hdw⟩ := IsDist.split ⟨hxw.cons hux, hmin⟩ (Walk.single hux) hxw
      by_cases hx : C x
      · -- the walk cannot end in `C`, so it goes on
        cases hxw with
        | nil => exact absurd hx hw
        | @cons _ y _ l' L' hxy hyw =>
          have hl' := hpos _ _ _ hxy
          have hL' := hyw.nonneg hnn
          have hy : ¬ C y := hindep _ _ _ hxy hx
          have hne : u ≠ y := by
            rintro rfl
            have := hmin _ hyw
            omega
          have hwhole : IsDist E u w ((l + l') + L') := by
            rw [add_assoc]
            exact ⟨(hyw.cons hxy).cons hux, hmin⟩
          obtain ⟨hdy, hdyw⟩ := hwhole.split ((Walk.single hux).snoc hxy) hyw
          have hrest := ih L'.toNat (by omega) y w L' rfl hy hw hdyw
          rw [← add_assoc]
          exact Walk.cons (hshort u x y l l' hx hux hxy hne hdy) hrest
      · have hrest := ih L.toNat (by omega) x w L rfl hx hw hdw
        exact Walk.cons (hkeep _ _ _ hux hu hx) hrest

/-- Contraction keeps the distances between the nodes that stay. -/
theorem isDist_contract (hpos : ∀ u v l, E u v l → 0 < l)
    (hindep : ∀ u v l, E u v l → C u → ¬ C v)
    (hkeep : ∀ u v l, E u v l → ¬ C u → ¬ C v → E' u v l)
    (hshort : ∀ u c w a b, C c → E u c a → E c w b → u ≠ w → IsDist E u w (a + b) →
      E' u w (a + b))
    (hsound : ∀ u v l, E' u v l → Walk E u v l)
    {u w : V} (hu : ¬ C u) (hw : ¬ C w) (d : Int) :
    IsDist E u w d ↔ IsDist E' u w d := by
  refine isDist_congr ?_ ?_ d
  · intro L hL
    obtain ⟨d', hd'⟩ := exists_isDist (fun u v l h => le_of_lt (hpos u v l h)) hL
    exact ⟨d', hd'.2 _ hL,
      exists_walk_of_isDist_contract hpos hindep hkeep hshort _ u w d' rfl hu hw hd'⟩
  · intro L hL
    exact ⟨L, le_refl L, hL.trans_edges hsound⟩

end contract

end WGraph
