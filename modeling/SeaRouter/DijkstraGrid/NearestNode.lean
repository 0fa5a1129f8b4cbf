import SeaRouter.DijkstraGrid.GridFile

/-!
# `Grid.getNearestGridNodeByCoordinates`

The search looks at the nodes whose coordinates have the same integer part as the given
ones, and returns the first of those at the smallest distance, or -1.  The source has
the two loops twice, for the coordinates in `HubLNodes` and for those in `Node`; both are
arrays that the import of the file has filled.
-/

namespace SeaRouter

open Java

namespace Grid

/-- What the search uses of `double` and of `IntersectionHelper`: `(int) x`,
`getDistance` and `Double.MAX_VALUE`. -/
structure Sphere (δ κ : Type) where
  intValue : δ → Int
  getDistance : δ → δ → δ → δ → κ
  maxValue : κ

variable {δ κ : Type} {S : Sphere δ κ} {nodes : Node δ} {latitude longitude : δ}

/-! ## The model -/

/-- One step of the loop that collects the candidates. -/
def addCandidate (S : Sphere δ κ) (nodes : Node δ) (iLat iLong : Int) (candidateNodes : List Int)
    (i : Int) : Run (List Int) := do
  let lat ← rd nodes.latitude i
  if iLat = S.intValue lat then
    let long ← rd nodes.longitude i
    if iLong = S.intValue long then return candidateNodes ++ [i] else return candidateNodes
  else return candidateNodes

/-- One step of the loop over the candidates, with `minDistance` and `minNodeIdx`. -/
def checkCandidate [LinearOrder κ] (S : Sphere δ κ) (nodes : Node δ) (latitude longitude : δ)
    (state : κ × Int) (nodeIdx : Int) : Run (κ × Int) := do
  let (minDistance, minNodeIdx) := state
  let lat ← rd nodes.latitude nodeIdx
  let long ← rd nodes.longitude nodeIdx
  let currDistance := S.getDistance latitude longitude lat long
  if currDistance < minDistance then return (currDistance, nodeIdx)
  else return (minDistance, minNodeIdx)

def getNearestGridNodeByCoordinates [LinearOrder κ] (S : Sphere δ κ) (nodes : Node δ)
    (latitude longitude : δ) : Run Int := do
  let iLat := S.intValue latitude
  let iLong := S.intValue longitude
  let candidateNodes ←
    (indices 0 nodes.latitude.length).foldlM (addCandidate S nodes iLat iLong) []
  if candidateNodes.length ≤ 0 then return -1
  else
    let (_, minNodeIdx) ←
      candidateNodes.foldlM (checkCandidate S nodes latitude longitude) (S.maxValue, 0)
    return minNodeIdx

/-! ## The nearest node -/

/-- The node `i` is in the square of the point, at the distance `d`. -/
def Candidate (S : Sphere δ κ) (nodes : Node δ) (latitude longitude : δ) (i : Nat) (d : κ) : Prop :=
  ∃ lat long, nodes.latitude[i]? = some lat ∧ nodes.longitude[i]? = some long ∧
    S.intValue latitude = S.intValue lat ∧ S.intValue longitude = S.intValue long ∧
    d = S.getDistance latitude longitude lat long

/-- The first of the nearest candidates, or -1 if there is none. -/
def Nearest [LinearOrder κ] (S : Sphere δ κ) (nodes : Node δ) (latitude longitude : δ) (v : Int) :
    Prop :=
  (v = -1 ∧ ∀ i d, ¬ Candidate S nodes latitude longitude i d) ∨
    ∃ (i : Nat) (d : κ), v = i ∧ Candidate S nodes latitude longitude i d ∧
      ∀ j e, Candidate S nodes latitude longitude j e → d ≤ e ∧ (e = d → i ≤ j)

theorem Candidate.unique {i : Nat} {d e : κ} (h : Candidate S nodes latitude longitude i d)
    (h' : Candidate S nodes latitude longitude i e) : d = e := by
  obtain ⟨lat, long, hlat, hlong, _, _, rfl⟩ := h
  obtain ⟨lat', long', hlat', hlong', _, _, rfl⟩ := h'
  rw [Option.some.inj (hlat.symm.trans hlat'), Option.some.inj (hlong.symm.trans hlong')]

/-- What the first loop collects of the first `k` nodes. -/
structure Collected (S : Sphere δ κ) (nodes : Node δ) (latitude longitude : δ) (k : Nat)
    (candidateNodes : List Int) : Prop where
  ascending : candidateNodes.Pairwise (· < ·)
  mem_iff : ∀ v, v ∈ candidateNodes ↔
    ∃ i : Nat, v = i ∧ i < k ∧ ∃ d, Candidate S nodes latitude longitude i d

theorem addCandidate_spec (hlen : nodes.longitude.length = nodes.latitude.length) {k : Nat}
    (hk : k < nodes.latitude.length) {candidateNodes : List Int}
    (h : Collected S nodes latitude longitude k candidateNodes) :
    ∃ candidateNodes', addCandidate S nodes (S.intValue latitude) (S.intValue longitude)
        candidateNodes k = .ok candidateNodes' ∧
      Collected S nodes latitude longitude (k + 1) candidateNodes' := by
  have hlat := List.getElem?_eq_getElem hk
  have hlong := List.getElem?_eq_getElem (show k < nodes.longitude.length by omega)
  simp only [addCandidate, rd_of_getElem? hlat, rd_of_getElem? hlong, ok_bind, pure_eq_ok]
  have hskip : (∀ d, ¬ Candidate S nodes latitude longitude k d) →
      Collected S nodes latitude longitude (k + 1) candidateNodes := by
    intro hno
    refine ⟨h.ascending, ?_⟩
    intro v
    rw [h.mem_iff]
    constructor
    · rintro ⟨i, rfl, hi, hd⟩
      exact ⟨i, rfl, by omega, hd⟩
    · rintro ⟨i, rfl, hi, d, hd⟩
      refine ⟨i, rfl, ?_, d, hd⟩
      by_contra hge
      obtain rfl : i = k := by omega
      exact hno d hd
  split_ifs with h1 h2
  · refine ⟨_, rfl, ?_, ?_⟩
    · rw [List.pairwise_append]
      refine ⟨h.ascending, List.pairwise_singleton _ _, ?_⟩
      intro v hv w hw
      obtain ⟨i, rfl, hi, _⟩ := (h.mem_iff v).mp hv
      rw [List.mem_singleton] at hw
      omega
    · intro v
      rw [List.mem_append, h.mem_iff, List.mem_singleton]
      constructor
      · rintro (⟨i, rfl, hi, hd⟩ | rfl)
        · exact ⟨i, rfl, by omega, hd⟩
        · exact ⟨k, rfl, by omega, _, _, _, hlat, hlong, h1, h2, rfl⟩
      · rintro ⟨i, rfl, hi, hd⟩
        by_cases hik : i < k
        · exact Or.inl ⟨i, rfl, hik, hd⟩
        · right
          omega
  · refine ⟨_, rfl, hskip ?_⟩
    rintro d ⟨lat, long, _, hlong', _, hsame, _⟩
    rw [Option.some.inj (hlong.symm.trans hlong')] at h2
    exact h2 hsame
  · refine ⟨_, rfl, hskip ?_⟩
    rintro d ⟨lat, long, hlat', _, hsame, _⟩
    rw [Option.some.inj (hlat.symm.trans hlat')] at h1
    exact h1 hsame

variable [LinearOrder κ]

/-- The state of the second loop: the first of the nearest nodes so far. -/
def Best (S : Sphere δ κ) (nodes : Node δ) (latitude longitude : δ) (checked : List Int)
    (state : κ × Int) : Prop :=
  (checked = [] ∧ state = (S.maxValue, 0)) ∨
    ∃ i : Nat, state.2 = i ∧ (i : Int) ∈ checked ∧
      Candidate S nodes latitude longitude i state.1 ∧ ∀ (j : Nat) e, (j : Int) ∈ checked →
        Candidate S nodes latitude longitude j e → state.1 ≤ e ∧ (e = state.1 → i ≤ j)

theorem checkCandidate_spec (hmax : ∀ a b c d, S.getDistance a b c d < S.maxValue)
    {checked : List Int} {k : Nat} {d : κ} (hd : Candidate S nodes latitude longitude k d)
    (hafter : ∀ v ∈ checked, v < k) {state : κ × Int}
    (h : Best S nodes latitude longitude checked state) :
    ∃ state', checkCandidate S nodes latitude longitude state k = .ok state' ∧
      Best S nodes latitude longitude (checked ++ [(k : Int)]) state' := by
  obtain ⟨lat, long, hlat, hlong, _, _, hdist⟩ := id hd
  simp only [checkCandidate, rd_of_getElem? hlat, rd_of_getElem? hlong, ok_bind, pure_eq_ok]
  rw [← hdist]
  have hlast : ∀ {j : Nat} {e}, (j : Int) ∈ checked ++ [(k : Int)] →
      Candidate S nodes latitude longitude j e → (j : Int) ∈ checked ∨ j = k ∧ e = d := by
    intro j e hj he
    rcases List.mem_append.mp hj with hj | hj
    · exact Or.inl hj
    · rw [List.mem_singleton, Nat.cast_inj] at hj
      subst hj
      exact Or.inr ⟨rfl, he.unique hd⟩
  split_ifs with hlt
  · refine ⟨_, rfl, Or.inr ⟨k, rfl, List.mem_append_right _ (List.mem_singleton_self _), hd, ?_⟩⟩
    intro j e hj he
    rcases hlast hj he with hj | ⟨rfl, rfl⟩
    · rcases h with ⟨rfl, _⟩ | ⟨i, _, _, _, hbest⟩
      · exact absurd hj List.not_mem_nil
      · have hle := lt_of_lt_of_le hlt (hbest j e hj he).1
        exact ⟨le_of_lt hle, fun heq => absurd hle (by rw [heq]; exact lt_irrefl d)⟩
    · exact ⟨le_refl e, fun _ => le_refl j⟩
  · refine ⟨_, rfl, ?_⟩
    rcases h with ⟨rfl, rfl⟩ | ⟨i, hi, hmem, hcand, hbest⟩
    · rw [hdist] at hlt
      exact absurd (hmax _ _ _ _) hlt
    · refine Or.inr ⟨i, hi, List.mem_append_left _ hmem, hcand, ?_⟩
      intro j e hj he
      rcases hlast hj he with hj | ⟨rfl, rfl⟩
      · exact hbest j e hj he
      · have hfirst := hafter i hmem
        exact ⟨not_lt.mp hlt, fun _ => by omega⟩

/-- When every distance is below `Double.MAX_VALUE`, the search returns the first of the
nearest nodes in the square. -/
theorem getNearestGridNodeByCoordinates_spec (hlen : nodes.longitude.length = nodes.latitude.length)
    (hmax : ∀ a b c d, S.getDistance a b c d < S.maxValue) (latitude longitude : δ) :
    ∃ v, getNearestGridNodeByCoordinates S nodes latitude longitude = .ok v ∧
      Nearest S nodes latitude longitude v := by
  obtain ⟨candidateNodes, hrun, hcand⟩ := foldlM_indices
    (f := addCandidate S nodes (S.intValue latitude) (S.intValue longitude))
    (P := fun k candidateNodes => Collected S nodes latitude longitude k candidateNodes)
    (Nat.zero_le nodes.latitude.length) (b := [])
    ⟨List.Pairwise.nil, by simp⟩
    (fun k candidateNodes _ hk h => addCandidate_spec hlen hk h)
  have h0 : ((0 : Nat) : Int) = 0 := rfl
  rw [h0] at hrun
  simp only [getNearestGridNodeByCoordinates, hrun, ok_bind, pure_eq_ok]
  have hall : ∀ i d, Candidate S nodes latitude longitude i d → (i : Int) ∈ candidateNodes := by
    intro i d h
    obtain ⟨lat, _, hlat, _⟩ := id h
    exact (hcand.mem_iff i).mpr ⟨i, rfl, (List.getElem?_eq_some_iff.mp hlat).1, d, h⟩
  split_ifs with hnone
  · refine ⟨-1, rfl, Or.inl ⟨rfl, ?_⟩⟩
    intro i d h
    have hnil : candidateNodes = [] := List.eq_nil_of_length_eq_zero (by omega)
    have hmem := hall i d h
    rw [hnil] at hmem
    exact List.not_mem_nil hmem
  · obtain ⟨⟨minDistance, minNodeIdx⟩, hloop, hbest⟩ := foldlM_spec
      (f := checkCandidate S nodes latitude longitude)
      (P := Best S nodes latitude longitude) candidateNodes (S.maxValue, 0) (Or.inl ⟨rfl, rfl⟩) (by
        intro pre v post state hsplit hstate
        obtain ⟨k, rfl, _, d, hd⟩ := (hcand.mem_iff v).mp (by rw [hsplit]; simp)
        have hasc := hcand.ascending
        rw [hsplit, List.pairwise_append] at hasc
        exact checkCandidate_spec hmax hd (fun w hw => hasc.2.2 w hw _ List.mem_cons_self) hstate)
    refine ⟨minNodeIdx, by rw [hloop, ok_bind], Or.inr ?_⟩
    rcases hbest with ⟨hnil, _⟩ | ⟨i, hi, _, hd, hleast⟩
    · rw [hnil] at hnone
      exact absurd (le_refl 0) hnone
    · exact ⟨i, minDistance, hi, hd, fun j e h => hleast j e (hall j e h) h⟩

/-- The node that is found is a node of the grid. -/
theorem Nearest.bounds {v : Int} (h : Nearest S nodes latitude longitude v) :
    -1 ≤ v ∧ v < nodes.latitude.length := by
  rcases h with ⟨rfl, _⟩ | ⟨i, d, rfl, ⟨lat, _, hlat, _⟩, _⟩
  · omega
  · have := (List.getElem?_eq_some_iff.mp hlat).1
    omega

end Grid

end SeaRouter
