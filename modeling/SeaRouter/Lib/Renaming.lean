import SeaRouter.Lib.Walk

/-!
# Graphs that differ in the names of their nodes

A graph is often built over something else than what its nodes stand for, such as the
indices of an array.  `Renames R E E'` says that `R` relates the nodes of `E` to those of
`E'` one to one, and that the edges are the same.  Walks, paths and distances are then
the same as well.
-/

namespace WGraph

variable {V W : Type} {R : V → W → Prop} {E : V → V → Int → Prop} {E' : W → W → Int → Prop}

/-- `R u x` says that `x` is the other name of `u`. -/
structure Renames (R : V → W → Prop) (E : V → V → Int → Prop) (E' : W → W → Int → Prop) : Prop where
  functional : ∀ u x y, R u x → R u y → x = y
  injective : ∀ u v x, R u x → R v x → u = v
  edge_iff : ∀ u v x y l, R u x → R v y → (E u v l ↔ E' x y l)
  target : ∀ u v l, E u v l → ∃ y, R v y
  target' : ∀ x y l, E' x y l → ∃ v, R v y

theorem Renames.symm (h : Renames R E E') : Renames (fun x u => R u x) E' E where
  functional x u v hu hv := h.injective u v x hu hv
  injective x y u hx hy := h.functional u x y hx hy
  edge_iff x y u v l hu hv := (h.edge_iff u v x y l hu hv).symm
  target := h.target'
  target' := h.target

theorem Renames.path (h : Renames R E E') {p : List V} {u v : V} {L : Int}
    (hp : IsPath E p u v L) :
    ∀ {x}, R u x → ∃ q y, List.Forall₂ R p q ∧ R v y ∧ IsPath E' q x y L := by
  induction hp with
  | nil u =>
    intro x hx
    exact ⟨[x], x, .cons hx .nil, hx, IsPath.nil x⟩
  | cons he _ ih =>
    intro x hx
    obtain ⟨z, hz⟩ := h.target _ _ _ he
    obtain ⟨q, y, hq, hy, hpath⟩ := ih hz
    exact ⟨x :: q, y, .cons hx hq, hy, IsPath.cons ((h.edge_iff _ _ _ _ _ hx hz).mp he) hpath⟩

/-- The names of the nodes of a path are a path. -/
theorem Renames.isPath (h : Renames R E E') {p : List V} {u v : V} {x y : W} {L : Int}
    (hx : R u x) (hy : R v y) (hp : IsPath E p u v L) :
    ∃ q, List.Forall₂ R p q ∧ IsPath E' q x y L := by
  obtain ⟨q, y', hq, hy', hpath⟩ := h.path hp hx
  obtain rfl := h.functional v y y' hy hy'
  exact ⟨q, hq, hpath⟩

theorem Renames.walk (h : Renames R E E') {u v : V} {L : Int} (hw : Walk E u v L) :
    ∀ {x y}, R u x → R v y → Walk E' x y L := by
  induction hw with
  | nil u =>
    intro x y hx hy
    obtain rfl := h.functional u x y hx hy
    exact Walk.nil x
  | cons he _ ih =>
    intro x y hx hy
    obtain ⟨z, hz⟩ := h.target _ _ _ he
    exact Walk.cons ((h.edge_iff _ _ _ _ _ hx hz).mp he) (ih hz hy)

theorem Renames.walk_iff (h : Renames R E E') {u v : V} {x y : W} {L : Int} (hx : R u x)
    (hy : R v y) : Walk E u v L ↔ Walk E' x y L :=
  ⟨fun hw => h.walk hw hx hy, fun hw => h.symm.walk hw hx hy⟩

theorem Renames.isDist_iff (h : Renames R E E') {u v : V} {x y : W} {d : Int} (hx : R u x)
    (hy : R v y) : IsDist E u v d ↔ IsDist E' x y d := by
  simp only [IsDist, h.walk_iff hx hy]

end WGraph
