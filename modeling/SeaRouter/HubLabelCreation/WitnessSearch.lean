import SeaRouter.HubLabelCreation.CHDijkstra
import SeaRouter.Lib.Search

/-!
# What the searches of `CHDijkstra` find

A search runs from a neighbour `init` of the node `pref` that is to be
contracted.  It looks at its stopping condition only every ten steps, it
prefers `pref` when two paths are equally long, and for that it may put a node
back into the heap.  `SearchState` and `Search` are the invariants: the
distances obey the general invariant of a label-setting search, the previous
nodes and edges are those of paths, once `pref` left the heap the nodes that
are best reached over it have it as their previous node, and `pref` itself has
`init` if the edge between them is a shortest path.

`contractNode_spec` sums up what the thread notes for one node: exactly the
pairs of neighbours whose distance is that of the way over the node, with
their exact distance.  For pairs that are missing no promise is made when the
second edge has the length 0 and the node is `Crowded`, that is ten other
nodes are not farther away than it: there the search may stop before it looks
at the edges of the node.
-/

namespace SeaRouter

open Java WGraph

namespace CHDijkstra

/-- An edge of the lists `L` leads from `u` to `v` and has the length `l`. -/
def Adj (E : Edges) (L : Int → List Int) (u v l : Int) : Prop :=
  ∃ e ∈ L u, E.destOf e = v ∧ E.distOf e = l

/-- The graph in which the threads search: the current lists `L` of the grid,
whose nodes with edges are `V`. -/
structure SearchGraph (E : Edges) (G : DynamicGrid) (L : Int → List Int) (V : Finset Int) :
    Prop where
  lists : ∀ u ∈ V, ∃ rest, rd G.currentEdgeIds u = .ok (L u ++ rest) ∧
    rd G.currentEdgeCount u = .ok ((L u).length : Int)
  card : V.card ≤ G.currentEdgeIds.length
  small : ∀ u ∈ V, u < MAX_VALUE
  outside : ∀ u, u ∉ V → L u = []
  getDest : ∀ u, ∀ e ∈ L u, E.getDest e = .ok (E.destOf e)
  getDist : ∀ u, ∀ e ∈ L u, E.getDist e = .ok (E.distOf e)
  dest : ∀ u, ∀ e ∈ L u, E.destOf e ∈ V ∧ E.destOf e ≠ u
  nonneg : ∀ u, ∀ e ∈ L u, 0 ≤ E.distOf e

/-- The maps of a search: `D` are the distances, `F` the flags, `PN` and `PE`
the previous nodes and edges and `M` is the heap. -/
structure SearchMaps where
  D : Int → Option Int
  F : Int → Option Bool
  PN : Int → Option Int
  PE : Int → Option Int
  M : Int → Option Int

/-- The state of a search, at any time.  `S` are the nodes that left the heap,
`P` the edges of `pref` and `I` those of `init` that were looked at. -/
structure SearchState (E : Edges) (L : Int → List Int) (V : Finset Int) (init pref : Int)
    (S : Finset Int) (P I : List Int) (t : CHDijkstra) (m : SearchMaps) : Prop where
  maps : Maps t m.D m.F m.PN m.PE
  heap : DistanceHeap.Holds t.heap m.M
  queue : ∀ x b, m.M x = some b → m.D x = some b
  found : ∀ x b, m.D x = some b → x ∈ V ∧ 0 ≤ b
  settled : S ⊆ V
  final : ∀ x, m.F x = some true → x ∈ S ∨ x = init
  prev : ∀ x b, m.D x = some b → x ≠ init → ∃ u e a, u ∈ S ∧ m.PN x = some u ∧
    m.PE x = some e ∧ m.D u = some a ∧ e ∈ L u ∧ E.destOf e = x ∧ a + E.distOf e = b
  prefer_mem : P ≠ [] → pref ∈ S
  prefer : ∀ e ∈ P, ∃ a b, m.D pref = some a ∧ m.D (E.destOf e) = some b ∧
    b ≤ a + E.distOf e ∧
    (b = a + E.distOf e → E.destOf e ≠ init → m.PN (E.destOf e) = some pref)
  first : ∀ e ∈ I, E.destOf e = pref → ∃ b, m.D pref = some b ∧ b ≤ E.distOf e ∧
    (b = E.distOf e → m.PN pref = some init)
  requeue : ∀ x ∈ S, m.M x ≠ none → pref ∈ S ∧ x ≠ pref

/-- The state while the edges of the node `v` at distance `d` are relaxed; `D₀`
and `M₀` are the distances and the heap when that began. -/
structure Relaxing (E : Edges) (L : Int → List Int) (V : Finset Int) (init pref : Int)
    (S : Finset Int) (P I : List Int) (v d : Int) (D₀ M₀ : Int → Option Int)
    (out : List (Int × Int)) (t : CHDijkstra) (m : SearchMaps) : Prop where
  state : SearchState E L V init pref S P I t m
  member : v ∈ S
  current : m.D v = some d
  near : ∀ x ∈ S, ∃ b, m.D x = some b ∧ b ≤ d
  relax : RelaxInv d D₀ (fun x => M₀ x ≠ none) out m.D (fun x => m.M x ≠ none)
  same : v ≠ pref → ∀ x ∈ S, m.M x = M₀ x

variable {E : Edges} {G : DynamicGrid} {L : Int → List Int} {V : Finset Int} {init pref : Int}
  {S : Finset Int} {P I : List Int} {v d : Int} {D₀ M₀ : Int → Option Int}
  {out : List (Int × Int)} {t : CHDijkstra} {m : SearchMaps}

theorem queue_update (M : Int → Option Int) (w b : Int) :
    (fun x => (if x = w then some b else M x) ≠ none) = fun x => M x ≠ none ∨ x = w := by
  funext x
  by_cases hx : x = w
  · simp [hx]
  · simp [hx]

/-- The state after the distance of `w` was lowered. -/
theorem SearchState.improve (h : SearchState E L V init pref S P I t m) {t' : CHDijkstra}
    {F' : Int → Option Bool} {w l e : Int} (hv : v ∈ S) (hd : m.D v = some d)
    (hwS : w ∉ S) (hwV : w ∈ V) (he : e ∈ L v) (hdest : E.destOf e = w) (hdist : E.distOf e = l)
    (hd0 : 0 ≤ d + l) (hlt : ∀ b, m.D w = some b → d + l < b)
    (hF : ∀ x, F' x = some true → x ∈ S ∨ x = init)
    (hmaps : Maps t' (fun x => if x = w then some (d + l) else m.D x) F'
      (fun x => if x = w then some v else m.PN x) (fun x => if x = w then some e else m.PE x))
    (hheap : DistanceHeap.Holds t'.heap (fun x => if x = w then some (d + l) else m.M x)) :
    SearchState E L V init pref S P I t'
      { D := fun x => if x = w then some (d + l) else m.D x
        F := F'
        PN := fun x => if x = w then some v else m.PN x
        PE := fun x => if x = w then some e else m.PE x
        M := fun x => if x = w then some (d + l) else m.M x } := by
  have hne : ∀ x ∈ S, x ≠ w := fun x hx he => hwS (he ▸ hx)
  refine ⟨hmaps, hheap, ?_, ?_, h.settled, hF, ?_, h.prefer_mem, ?_, ?_, ?_⟩
  · intro x b hb
    by_cases hx : x = w
    · simpa only [if_pos hx] using hb
    · simp only [if_neg hx] at hb ⊢
      exact h.queue x b hb
  · intro x b hb
    by_cases hx : x = w
    · simp only [if_pos hx, Option.some.injEq] at hb
      exact ⟨hx ▸ hwV, by omega⟩
    · simp only [if_neg hx] at hb
      exact h.found x b hb
  · intro x b hb hxi
    by_cases hx : x = w
    · simp only [if_pos hx, Option.some.injEq] at hb
      simp only [if_pos hx]
      exact ⟨v, e, d, hv, rfl, rfl, by simp only [if_neg (hne v hv)]; exact hd, he,
        hdest.trans hx.symm, by omega⟩
    · simp only [if_neg hx] at hb ⊢
      obtain ⟨u, e', a, hu, h1, h2, h3, h4, h5, h6⟩ := h.prev x b hb hxi
      exact ⟨u, e', a, hu, h1, h2, by simp only [if_neg (hne u hu)]; exact h3, h4, h5, h6⟩
  · intro e' he'
    have hpS : pref ∈ S := h.prefer_mem (List.ne_nil_of_mem he')
    obtain ⟨a, b, h1, h2, h3, h4⟩ := h.prefer e' he'
    simp only [if_neg (hne pref hpS)]
    by_cases hx : E.destOf e' = w
    · have := hlt b (hx ▸ h2)
      exact ⟨a, d + l, h1, by simp only [if_pos hx], by omega, fun hb => by omega⟩
    · exact ⟨a, b, h1, by simp only [if_neg hx]; exact h2, h3, by simp only [if_neg hx]; exact h4⟩
  · intro e' he' hp
    obtain ⟨b, h1, h2, h3⟩ := h.first e' he' hp
    by_cases hx : pref = w
    · have := hlt b (hx ▸ h1)
      exact ⟨d + l, by simp only [if_pos hx], by omega, fun hb => by omega⟩
    · exact ⟨b, by simp only [if_neg hx]; exact h1, h2, by simp only [if_neg hx]; exact h3⟩
  · intro x hx hM
    simp only [if_neg (hne x hx)] at hM
    exact h.requeue x hx hM

/-- The state after `pref` became the previous node of `w`, at an equal
distance. -/
theorem SearchState.reroute (h : SearchState E L V init pref S P I t m) {t' : CHDijkstra}
    {F' : Int → Option Bool} {w e : Int} (hv : pref ∈ S) (hd : m.D pref = some d)
    (hwp : w ≠ pref) (he : e ∈ L pref) (hdest : E.destOf e = w)
    (hw : m.D w = some (d + E.distOf e))
    (hF : ∀ x, F' x = some true → x ∈ S ∨ x = init)
    (hmaps : Maps t' m.D F' (fun x => if x = w then some pref else m.PN x)
      (fun x => if x = w then some e else m.PE x))
    (hheap : DistanceHeap.Holds t'.heap
      (fun x => if x = w then some (d + E.distOf e) else m.M x)) :
    SearchState E L V init pref S P I t'
      { D := m.D
        F := F'
        PN := fun x => if x = w then some pref else m.PN x
        PE := fun x => if x = w then some e else m.PE x
        M := fun x => if x = w then some (d + E.distOf e) else m.M x } := by
  refine ⟨hmaps, hheap, ?_, h.found, h.settled, hF, ?_, h.prefer_mem, ?_, ?_, ?_⟩
  · intro x b hb
    by_cases hx : x = w
    · simp only [if_pos hx, Option.some.injEq] at hb
      simp only [hx, hw, hb]
    · simp only [if_neg hx] at hb
      exact h.queue x b hb
  · intro x b hb hxi
    by_cases hx : x = w
    · simp only [if_pos hx]
      refine ⟨pref, e, d, hv, rfl, rfl, hd, he, hdest.trans hx.symm, ?_⟩
      simp only [hx, hw, Option.some.injEq] at hb
      exact hb
    · simp only [if_neg hx]
      exact h.prev x b hb hxi
  · intro e' he'
    obtain ⟨a, b, h1, h2, h3, h4⟩ := h.prefer e' he'
    refine ⟨a, b, h1, h2, h3, ?_⟩
    by_cases hx : E.destOf e' = w
    · simp [hx]
    · simpa only [if_neg hx] using h4
  · intro e' he' hp
    obtain ⟨b, h1, h2, h3⟩ := h.first e' he' hp
    exact ⟨b, h1, h2, by simpa only [if_neg (Ne.symm hwp)] using h3⟩
  · intro x hx hM
    by_cases hxw : x = w
    · exact ⟨hv, hxw ▸ hwp⟩
    · simp only [if_neg hxw] at hM
      exact h.requeue x hx hM

/-- When `pref` relaxes an edge, it joins those that were looked at. -/
theorem SearchState.look (h : SearchState E L V init pref S P I t m) {e a b : Int}
    (hp : v = pref → pref ∈ S ∧ m.D pref = some a ∧ m.D (E.destOf e) = some b ∧
      b ≤ a + E.distOf e ∧
      (b = a + E.distOf e → E.destOf e ≠ init → m.PN (E.destOf e) = some pref)) :
    SearchState E L V init pref S (if v = pref then P ++ [e] else P) I t m := by
  by_cases hvp : v = pref
  · rw [if_pos hvp]
    obtain ⟨hmem, hrest⟩ := hp hvp
    refine ⟨h.maps, h.heap, h.queue, h.found, h.settled, h.final, h.prev, fun _ => hmem, ?_,
      h.first, h.requeue⟩
    intro e' he'
    rcases List.mem_append.mp he' with he' | he'
    · exact h.prefer e' he'
    · rw [List.mem_singleton.mp he']
      exact ⟨a, b, hrest⟩
  · rw [if_neg hvp]
    exact h

/-- One edge of the node `v`. -/
theorem Relaxing.step (hg : SearchGraph E G L V)
    (h : Relaxing E L V init pref S P I v d D₀ M₀ out t m) {e : Int} (he : e ∈ L v) :
    ∃ t' m', relaxEdge E pref v t e = .ok t' ∧ SameSearch t t' ∧
      Relaxing E L V init pref S (if v = pref then P ++ [e] else P) I v d D₀ M₀
        (out ++ [(E.destOf e, E.distOf e)]) t' m' := by
  obtain ⟨hwV, hwv⟩ := hg.dest v e he
  have hl0 := hg.nonneg v e he
  have hd0 := (h.state.found v d h.current).2
  obtain ⟨t', hrun, hsame, D', PN', PE', M', hmaps, hheap, hcase⟩ := relaxEdge_spec
    h.state.maps h.state.heap h.state.queue (fun x b hb => (h.state.found x b hb).2) h.current
    hwv (hg.small _ hwV) (hg.getDest v e he) (hg.getDist v e he)
  obtain ⟨F', hF, hmaps⟩ : ∃ F', (∀ x, F' x = some true → x ∈ S ∨ x = init) ∧
      Maps t' D' F' PN' PE' := by
    refine ⟨_, ?_, hmaps⟩
    intro x hx
    by_cases hxv : x = v
    · exact Or.inl (hxv ▸ h.member)
    · rw [if_neg hxv] at hx
      by_cases hxw : x = E.destOf e
      · rw [if_pos hxw, Option.some.injEq] at hx
        refine h.state.final x ?_
        rw [hxw]
        cases hFw : m.F (E.destOf e) with
        | none => simp [hFw] at hx
        | some b => simpa [hFw] using hx
      · rw [if_neg hxw] at hx
        exact h.state.final x hx
  rcases hcase with ⟨hlt, rfl, rfl, rfl, rfl⟩ | ⟨hDw, hvp, rfl, rfl, rfl, rfl⟩ |
    ⟨b, hDw, hle, hpref, rfl, rfl, rfl, rfl⟩
  · -- a strict improvement: `w` has not left the heap yet
    have hwS : E.destOf e ∉ S := by
      intro hw
      obtain ⟨b, hb, hbd⟩ := h.near _ hw
      have := hlt b hb
      omega
    have hne : ∀ x ∈ S, x ≠ E.destOf e := fun x hx he' => hwS (he' ▸ hx)
    have hst := h.state.improve h.member h.current hwS hwV he rfl rfl (by omega) hlt hF hmaps hheap
    refine ⟨t', _, hrun, hsame, hst.look (a := d) (b := d + E.distOf e) ?_, h.member, ?_, ?_, ?_,
      ?_⟩
    · intro hvp
      refine ⟨hvp ▸ h.member, ?_, by simp, le_refl _, by simp [hvp]⟩
      simp only [← hvp, if_neg (hne v h.member)]
      exact h.current
    · simp only [if_neg (hne v h.member)]
      exact h.current
    · intro x hx
      simp only [if_neg (hne x hx)]
      exact h.near x hx
    · simp only
      rw [queue_update]
      exact h.relax.improve hlt
    · intro hvp x hx
      simp only [if_neg (hne x hx)]
      exact h.same hvp x hx
  · -- an equal distance over `pref`
    subst hvp
    have hst := h.state.reroute h.member h.current hwv he rfl hDw hF hmaps hheap
    refine ⟨t', _, hrun, hsame, hst.look (a := d) (b := d + E.distOf e) ?_, h.member, h.current,
      h.near, ?_, fun hvp => absurd rfl hvp⟩
    · intro _
      exact ⟨h.member, h.current, hDw, le_refl _, by simp⟩
    · refine h.relax.skip hDw (le_refl _) ?_ (fun _ => Or.inr rfl)
      intro x
      by_cases hx : x = E.destOf e
      · simp [hx]
      · simp [hx]
  · have hst : SearchState E L V init pref S P I t' { m with F := F' } :=
      { h.state with maps := hmaps, heap := hheap, final := hF }
    refine ⟨t', _, hrun, hsame, hst.look (a := d) (b := b) ?_, h.member, h.current, h.near, ?_,
      h.same⟩
    · intro hvp
      have := hpref hvp
      exact ⟨hvp ▸ h.member, hvp ▸ h.current, hDw, hle, fun hb => by omega⟩
    · refine h.relax.skip hDw hle ?_ Or.inl
      intro x
      constructor
      · exact Or.inl
      · rintro (hx | ⟨rfl, hx⟩)
        · exact hx
        · exact hx

/-! ## One step of the search -/

/-- The invariant of the search between two steps. -/
structure Search (E : Edges) (L : Int → List Int) (V : Finset Int) (init pref : Int)
    (S : Finset Int) (t : CHDijkstra) (m : SearchMaps) : Prop where
  state : SearchState E L V init pref S (if pref ∈ S then L pref else [])
    (if S = ∅ then [] else L init) t m
  inv : SearchInv (Adj E L) init m.D (· ∈ S) (fun x => m.M x ≠ none)
  begun : S = ∅ → ∀ x, m.M x ≠ none → x = init
  started : S ≠ ∅ → init ∈ S

/-- How many nodes the search may still take out of the heap: every node once,
and once more those that `pref` puts back. -/
def stepBound (V : Finset Int) (pref : Int) (S : Finset Int) (M : Int → Option Int) : Nat :=
  (V.card - S.card) + (S.filter fun x => M x ≠ none).card + if pref ∈ S then 0 else V.card

theorem stepBound_le (V : Finset Int) (pref : Int) (S : Finset Int) (M : Int → Option Int)
    (hS : S ⊆ V) : stepBound V pref S M ≤ 2 * V.card := by
  have h1 := Finset.card_le_card hS
  have h2 := Finset.card_filter_le S fun x => M x ≠ none
  unfold stepBound
  split_ifs <;> omega

theorem stepBound_lt {M M' : Int → Option Int} (hS : S ⊆ V) (hvV : v ∈ V)
    (hpref : pref ∈ S → M pref = none) (hM : M v ≠ none)
    (hMM : v ≠ pref → ∀ x ∈ insert v S, M' x = if x = v then none else M x) :
    stepBound V pref (insert v S) M' < stepBound V pref S M := by
  have hcard := Finset.card_le_card (Finset.insert_subset hvV hS)
  by_cases hvp : v = pref
  · -- `pref` leaves the heap once
    have hvS : v ∉ S := fun h => hM (by rw [hvp] at h ⊢; exact hpref h)
    rw [Finset.card_insert_of_notMem hvS] at hcard
    have h1 := Finset.card_filter_le (insert v S) fun x => M' x ≠ none
    rw [Finset.card_insert_of_notMem hvS] at h1
    rw [stepBound, stepBound, if_pos (by rw [hvp]; exact Finset.mem_insert_self _ _),
      if_neg (by rw [← hvp]; exact hvS), Finset.card_insert_of_notMem hvS]
    omega
  · have hfilter : ((insert v S).filter fun x => M' x ≠ none)
        = (S.filter fun x => M x ≠ none).erase v := by
      ext x
      simp only [Finset.mem_filter, Finset.mem_erase, Finset.mem_insert]
      constructor
      · rintro ⟨hx, hMx⟩
        rw [hMM hvp x (Finset.mem_insert.mpr hx)] at hMx
        by_cases hxv : x = v
        · simp [hxv] at hMx
        · rw [if_neg hxv] at hMx
          exact ⟨hxv, hx.resolve_left hxv, hMx⟩
      · rintro ⟨hxv, hx, hMx⟩
        refine ⟨Or.inr hx, ?_⟩
        rw [hMM hvp x (Finset.mem_insert.mpr (Or.inr hx)), if_neg hxv]
        exact hMx
    have hpin : (pref ∈ insert v S) = (pref ∈ S) := by
      rw [Finset.mem_insert]
      simp [Ne.symm hvp]
    rw [stepBound, stepBound, hfilter]
    simp only [hpin]
    by_cases hvS : v ∈ S
    · have hmem : v ∈ S.filter fun x => M x ≠ none := Finset.mem_filter.mpr ⟨hvS, hM⟩
      have hpos := Finset.card_pos.mpr ⟨v, hmem⟩
      rw [Finset.insert_eq_of_mem hvS, Finset.card_erase_of_mem hmem]
      omega
    · have h1 := Finset.card_erase_le (a := v) (s := S.filter fun x => M x ≠ none)
      rw [Finset.card_insert_of_notMem hvS] at hcard ⊢
      omega

/-- The state after `v` left the heap, before its edges are relaxed. -/
theorem Search.pop (h : Search E L V init pref S t m) {heap' : DistanceHeap} (hvV : v ∈ V)
    (hheap : DistanceHeap.Holds heap' (fun x => if x = v then none else m.M x)) :
    SearchState E L V init pref (insert v S) (if pref ∈ S then L pref else [])
      (if S = ∅ then [] else L init) { t with heap := heap' }
      { m with M := fun x => if x = v then none else m.M x } := by
  have hst := h.state
  refine ⟨hst.maps.withHeap heap', hheap, ?_, hst.found, Finset.insert_subset hvV hst.settled, ?_,
    ?_, ?_, hst.prefer, hst.first, ?_⟩
  · intro x b hb
    by_cases hx : x = v
    · simp [hx] at hb
    · simp only [if_neg hx] at hb
      exact hst.queue x b hb
  · intro x hx
    rcases hst.final x hx with h1 | h1
    · exact Or.inl (Finset.mem_insert_of_mem h1)
    · exact Or.inr h1
  · intro x b hb hxi
    obtain ⟨u, e, a, hu, hrest⟩ := hst.prev x b hb hxi
    exact ⟨u, e, a, Finset.mem_insert_of_mem hu, hrest⟩
  · intro hP
    exact Finset.mem_insert_of_mem (hst.prefer_mem hP)
  · intro x hx hM
    by_cases hxv : x = v
    · simp [hxv] at hM
    · simp only [if_neg hxv] at hM
      obtain ⟨h1, h2⟩ := hst.requeue x ((Finset.mem_insert.mp hx).resolve_left hxv) hM
      exact ⟨Finset.mem_insert_of_mem h1, h2⟩

/-- The loop over all edges of the node that left the heap. -/
theorem Relaxing.all (hg : SearchGraph E G L V)
    (h : Relaxing E L V init pref S P I v d D₀ M₀ [] t m) :
    ∃ t' m', (L v).foldlM (relaxEdge E pref v) t = .ok t' ∧ SameSearch t t' ∧
      Relaxing E L V init pref S (if v = pref then P ++ L v else P) I v d D₀ M₀
        ((L v).map fun e => (E.destOf e, E.distOf e)) t' m' := by
  obtain ⟨t', hrun, m', hsame, hrel⟩ := foldlM_spec (f := relaxEdge E pref v)
    (P := fun pre t' => ∃ m', SameSearch t t' ∧
      Relaxing E L V init pref S (if v = pref then P ++ pre else P) I v d D₀ M₀
        (pre.map fun e => (E.destOf e, E.distOf e)) t' m') (L v) t
    ⟨m, SameSearch.refl t, by simpa using h⟩ (by
      rintro pre e post t₁ hsplit ⟨m₁, hsame, hrel⟩
      obtain ⟨t₂, m₂, hstep, hsame', hrel'⟩ := hrel.step hg (e := e) (by rw [hsplit]; simp)
      refine ⟨t₂, hstep, m₂, hsame.trans hsame', ?_⟩
      have hP : (if v = pref then (if v = pref then P ++ pre else P) ++ [e]
          else (if v = pref then P ++ pre else P)) = if v = pref then P ++ (pre ++ [e]) else P := by
        by_cases hvp : v = pref
        · simp [hvp]
        · simp [hvp]
      rw [hP] at hrel'
      simpa using hrel')
  exact ⟨t', m', hrun, hsame, hrel⟩

/-- After the first step the nodes that were found have `init` as their previous node. -/
theorem Relaxing.first (hg : SearchGraph E G L V)
    (h : Relaxing E L V init pref S P I init 0 D₀ M₀
      ((L init).map fun e => (E.destOf e, E.distOf e)) t m) (hS : ∀ u ∈ S, u = init) : SearchState E L V init pref S P (L init) t m := by
  refine { h.state with first := ?_ }
  intro e he hep
  obtain ⟨b, hb, hle⟩ := h.relax.relaxed (E.destOf e) (E.distOf e) (List.mem_map.mpr ⟨e, he, rfl⟩)
  rw [hep] at hb
  refine ⟨b, hb, by omega, fun _ => ?_⟩
  have hpv : pref ≠ init := hep ▸ (hg.dest init e he).2
  obtain ⟨u, _, _, hu, hpn, _⟩ := h.state.prev pref b hb hpv
  rw [hpn, hS u hu]

/-- The edges that `pref` has relaxed, after one more node left the heap. -/
theorem Search.prefer_insert (h : Search E L V init pref S t m) (hM : m.M v ≠ none) :
    (if v = pref then (if pref ∈ S then L pref else []) ++ L v else if pref ∈ S then L pref else [])
      = if pref ∈ insert v S then L pref else [] := by
  by_cases hvp : v = pref
  · have hnot : pref ∉ S := fun hp => (h.state.requeue pref hp (hvp ▸ hM)).2 rfl
    simp [hvp, hnot]
  · have hpin : pref ∈ insert v S ↔ pref ∈ S := by
      rw [Finset.mem_insert]
      simp [Ne.symm hvp]
    simp only [if_neg hvp, hpin]

/-- The nodes that left the heap are no further away than the one that leaves it now. -/
theorem Search.near_insert (h : Search E L V init pref S t m) (hM : m.M v ≠ none)
    (hD : m.D v = some d) : ∀ x ∈ insert v S, ∃ b, m.D x = some b ∧ b ≤ d := by
  intro x hx
  rcases Finset.mem_insert.mp hx with rfl | hx
  · exact ⟨d, hD, le_refl d⟩
  · obtain ⟨b, hb⟩ := h.inv.settled x hx
    exact ⟨b, hb, h.inv.mono x v b d hx hM hb hD⟩

/-- The edges of a node, as the steps of the search. -/
theorem adj_iff_mem {w l : Int} :
    Adj E L v w l ↔ (w, l) ∈ (L v).map fun e => (E.destOf e, E.distOf e) := by
  rw [List.mem_map]
  constructor
  · intro hadj
    obtain ⟨e, he, rfl, rfl⟩ := hadj
    exact ⟨e, he, rfl⟩
  · intro hmem
    obtain ⟨e, he, heq⟩ := hmem
    simp only [Prod.mk.injEq] at heq
    exact ⟨e, he, heq.1, heq.2⟩

/-- All edges of the node that left the heap were relaxed. -/
theorem Search.relaxed (hg : SearchGraph E G L V) (h : Search E L V init pref S t m)
    {t' : CHDijkstra} {m' : SearchMaps} (hM : m.M v ≠ none) (hD : m.D v = some d)
    (hrel : Relaxing E L V init pref (insert v S)
      (if v = pref then (if pref ∈ S then L pref else []) ++ L v
        else if pref ∈ S then L pref else [])
      (if S = ∅ then [] else L init) v d D₀ M₀ ((L v).map fun e => (E.destOf e, E.distOf e)) t' m') :
    SearchState E L V init pref (insert v S) (if pref ∈ insert v S then L pref else [])
      (if insert v S = ∅ then [] else L init) t' m' := by
  rw [h.prefer_insert hM] at hrel
  rw [if_neg (Finset.insert_ne_empty v S)]
  by_cases hS : S = ∅
  · have hvi : v = init := h.begun hS v hM
    subst hvi
    have hd0 : d = 0 := by
      have := h.inv.source
      rw [hD, Option.some.injEq] at this
      exact this
    subst hd0
    refine hrel.first hg ?_
    intro u hu
    rw [hS, Finset.mem_insert] at hu
    exact hu.resolve_right (Finset.notMem_empty u)
  · have hfin := hrel.state
    rw [if_neg hS] at hfin
    exact hfin

/-- `nextStep` takes a node out of the heap and relaxes its edges. -/
theorem nextStep_spec (hg : SearchGraph E G L V) (h : Search E L V init pref S t m)
    (hne : t.heap.isEmpty = false) :
    ∃ v t' m', nextStep E G pref t = .ok (true, t') ∧ SameSearch t t' ∧
      Search E L V init pref (insert v S) t' m' ∧
      stepBound V pref (insert v S) m'.M < stepBound V pref S m.M ∧ (pref ∉ S → v ∉ S) := by
  have hst := h.state
  have hE : ∀ u v l, Adj E L u v l → 0 ≤ l := by
    rintro u v l ⟨e, he, _, rfl⟩
    exact hg.nonneg u e he
  obtain ⟨v, d, heap', hnext, hMv, hminM, hheap⟩ := DistanceHeap.getNext_spec hst.heap hne
  have hDv := hst.queue v d hMv
  have hvV := (hst.found v d hDv).1
  have hMvne : m.M v ≠ none := by rw [hMv]; simp
  have hmin : ∀ w b, m.M w ≠ none → m.D w = some b → d ≤ b := by
    intro w b hw hb
    obtain ⟨b', hb'⟩ := Option.ne_none_iff_exists'.mp hw
    have := hst.queue w b' hb'
    rw [hb, Option.some.injEq] at this
    exact this ▸ hminM w b' hb'
  have hpop := h.pop hvV hheap
  have hstart : Relaxing E L V init pref (insert v S) (if pref ∈ S then L pref else [])
      (if S = ∅ then [] else L init) v d m.D (fun x => if x = v then none else m.M x) []
      { t with heap := heap' } { m with M := fun x => if x = v then none else m.M x } :=
    ⟨hpop, Finset.mem_insert_self v S, hDv, h.near_insert hMvne hDv, relaxInv_nil _ _ _,
      fun _ _ _ => rfl⟩
  obtain ⟨t', m', hrun, hsame, hrel⟩ := hstart.all hg
  have hQ₀ : ∀ w, (if w = v then none else m.M w) ≠ none ↔ m.M w ≠ none ∧ w ≠ v := by
    intro w
    by_cases hw : w = v
    · simp [hw]
    · simp [hw]
  have hinv := h.inv.pop_relax hE hMvne hDv hmin (fun w l => adj_iff_mem) hQ₀ hrel.relax
  have hsettled : (fun x => x ∈ S ∨ x = v) = fun x => x ∈ insert v S := by
    funext x
    rw [Finset.mem_insert, or_comm]
  rw [hsettled] at hinv
  refine ⟨v, t', m', ?_, ⟨hsame.neighbours, hsame.initialNode, hsame.shortcuts, hsame.nodeIds⟩,
    ⟨?_, hinv, ?_, ?_⟩, ?_, ?_⟩
  · obtain ⟨rest, hrow, hcount⟩ := hg.lists v hvV
    have hslice : slice (L v ++ rest) 0 ((L v).length : Int) = .ok (L v) := slice_append
    unfold nextStep
    simp only [hne, Bool.false_eq_true, if_false, hnext, ok_bind, DynamicGrid.getCurrentEdgeCount,
      DynamicGrid.getCurrentEdges, hrow, hcount, hslice, hrun]
    rfl
  · exact h.relaxed hg hMvne hDv hrel
  · intro hempty
    exact absurd hempty (Finset.insert_ne_empty v S)
  · intro _
    by_cases hS : S = ∅
    · rw [← h.begun hS v hMvne]
      exact Finset.mem_insert_self v S
    · exact Finset.mem_insert_of_mem (h.started hS)
  · refine stepBound_lt hst.settled hvV ?_ hMvne hrel.same
    intro hp
    by_contra hM
    exact (hst.requeue pref hp hM).2 rfl
  · intro hp hvS
    exact hp (hst.requeue v hvS hMvne).1

/-! ## The whole search -/

/-- The loop of `multipleNextSteps`: it makes its steps, unless the heap runs
empty, and until `pref` left the heap they are steps to new nodes. -/
theorem nextSteps_spec (hg : SearchGraph E G L V) : ∀ (left : Nat) (S : Finset Int)
    (t : CHDijkstra) (m : SearchMaps), Search E L V init pref S t m →
    ∃ S' t' m', nextSteps E G pref left t = .ok t' ∧ SameSearch t t' ∧
      Search E L V init pref S' t' m' ∧ S ⊆ S' ∧
      (t'.heap.isEmpty = true ∨ pref ∈ S' ∨ S.card + left ≤ S'.card) ∧
      stepBound V pref S' m'.M ≤ stepBound V pref S m.M ∧
      (0 < left → t.heap.isEmpty = false →
        stepBound V pref S' m'.M < stepBound V pref S m.M) := by
  intro left
  induction left with
  | zero =>
    intro S t m h
    exact ⟨S, t, m, rfl, SameSearch.refl t, h, Finset.Subset.refl S,
      Or.inr (Or.inr (le_refl _)), le_refl _, fun h0 => absurd h0 (lt_irrefl 0)⟩
  | succ left ih =>
    intro S t m h
    cases hempty : t.heap.isEmpty with
    | true =>
      refine ⟨S, t, m, ?_, SameSearch.refl t, h, Finset.Subset.refl S, Or.inl hempty, le_refl _,
        fun _ hf => by simp at hf⟩
      simp [nextSteps, nextStep, hempty]
    | false =>
      obtain ⟨v, t₁, m₁, hstep, hsame, h₁, hlt, hnew⟩ := nextStep_spec hg h hempty
      obtain ⟨S', t', m', hrun, hsame', h', hsub, hcase, hle, _⟩ := ih (insert v S) t₁ m₁ h₁
      refine ⟨S', t', m', ?_, hsame.trans hsame', h',
        (Finset.subset_insert v S).trans hsub, ?_, by omega, fun _ _ => by omega⟩
      · rw [nextSteps, hstep, ok_bind]
        exact hrun
      · rcases hcase with h1 | h1 | h1
        · exact Or.inl h1
        · exact Or.inr (Or.inl h1)
        · by_cases hpS : pref ∈ S
          · exact Or.inr (Or.inl (hsub (Finset.mem_insert_of_mem hpS)))
          · rw [Finset.card_insert_of_notMem (hnew hpS)] at h1
            exact Or.inr (Or.inr (by omega))

/-- The arrays of a thread fit together. -/
structure Ready (t : CHDijkstra) : Prop where
  pos : 0 < t.foundIds.length
  dist : t.distances.length = t.foundIds.length
  final : t.finalDistance.length = t.foundIds.length
  prevNode : t.previousNodes.length = t.foundIds.length
  prevEdge : t.previousEdges.length = t.foundIds.length
  heap : ∃ M, DistanceHeap.Holds t.heap M

theorem ready_new : Ready new :=
  ⟨by decide, rfl, rfl, rfl, rfl, _, DistanceHeap.new_holds 10 (by decide)⟩

theorem Search.ready (h : Search E L V init pref S t m) : Ready t := by
  obtain ⟨xs, ds, fs, pn, pe, free, hf, hD, _⟩ := h.state.maps
  obtain ⟨restD, hd, hrd⟩ := hf.dist
  obtain ⟨restF, hfin, hrf⟩ := hf.final
  obtain ⟨restN, hn, hrn⟩ := hf.prevNode
  obtain ⟨restE, he, hre⟩ := hf.prevEdge
  have hcap : t.foundIds.length = xs.length + free := by rw [hf.ids.eq]; simp
  have h1 := hf.distLength
  have h2 := hf.finalLength
  have h3 := hf.prevNodeLength
  have h4 := hf.prevEdgeLength
  refine ⟨?_, ?_, ?_, ?_, ?_, _, h.state.heap⟩
  · have hsrc := h.inv.source
    rw [hD] at hsrc
    have := List.length_pos_of_mem (mem_of_assoc hsrc)
    omega
  · rw [hd, List.length_append]; omega
  · rw [hfin, List.length_append]; omega
  · rw [hn, List.length_append]; omega
  · rw [he, List.length_append]; omega

/-- The state with which a search begins.  The flag, the previous node and the
previous edge of `init` are what an earlier search left there. -/
theorem startSearch_spec (h : Ready t) (hinit : init ∈ V) (hsmall : init < MAX_VALUE)
    (pref : Int) (neighbours : List Int) :
    ∃ t' m, startSearch t init neighbours = .ok t' ∧ t'.neighbours = neighbours ∧
      t'.initialNode = init ∧ t'.shortcuts = t.shortcuts ∧ t'.nodeIdsToCalc = t.nodeIdsToCalc ∧
      Search E L V init pref ∅ t' m := by
  obtain ⟨M, hM⟩ := h.heap
  obtain ⟨heap', hadd, hheap⟩ := DistanceHeap.add_spec (DistanceHeap.reset_holds hM) (d := 0)
    hsmall (by simp)
  obtain ⟨k, hk⟩ : ∃ k, t.foundIds.length = k + 1 := ⟨t.foundIds.length - 1, by have := h.pos; omega⟩
  obtain ⟨f, restF, hfin⟩ := List.exists_cons_of_length_eq_add_one (h.final.trans hk)
  obtain ⟨y, restN, hn⟩ := List.exists_cons_of_length_eq_add_one (h.prevNode.trans hk)
  obtain ⟨z, restE, he⟩ := List.exists_cons_of_length_eq_add_one (h.prevEdge.trans hk)
  have hassoc : ∀ {β : Type} (b : β) (x : Int),
      assoc [init] [b] x = if x = init then some b else none := by
    intro β b x
    rfl
  have hD : (fun x => if x = init then some (0 : Int) else none) = assoc [init] [0] := by
    funext x
    rw [hassoc]
  refine ⟨{ t with
      neighbours := neighbours, initialNode := init
      foundIds := init :: List.replicate k MAX_VALUE
      distances := 0 :: List.replicate k 0
      heap := heap', foundIdCount := 1 },
    { D := fun x => if x = init then some 0 else none
      F := assoc [init] [f], PN := assoc [init] [y], PE := assoc [init] [z]
      M := fun x => if x = init then some 0 else none }, ?_, rfl, rfl, rfl, rfl,
    ⟨⟨⟨[init], [0], [f], [y], [z], k, ⟨⟨rfl, by simp, by simpa using hsmall⟩, ⟨_, rfl, by simp⟩,
      ⟨restF, hfin, ?_⟩, ⟨restN, hn, ?_⟩, ⟨restE, he, ?_⟩, rfl, rfl, rfl, rfl, rfl⟩, hD, rfl, rfl,
      rfl⟩, hheap, fun _ _ hb => hb, ?_, by simp, ?_, ?_, by simp, by simp, by simp, by simp⟩,
      ?_, ?_, fun h => absurd rfl h⟩⟩
  · unfold startSearch
    rw [h.dist, hk, List.replicate_succ, List.replicate_succ, wr_of_bounds _ (by omega) (by simp),
      ok_bind, wr_of_bounds _ (by omega) (by simp), ok_bind, hadd]
    rfl
  · have := h.final
    rw [hfin, List.length_cons] at this
    omega
  · have := h.prevNode
    rw [hn, List.length_cons] at this
    omega
  · have := h.prevEdge
    rw [he, List.length_cons] at this
    omega
  · intro x b hb
    by_cases hx : x = init
    · simp only [if_pos hx, Option.some.injEq] at hb
      exact ⟨hx ▸ hinit, by omega⟩
    · simp [hx] at hb
  · intro x hx
    have hx : assoc [init] [f] x = some true := hx
    rw [hassoc] at hx
    by_cases hxi : x = init
    · exact Or.inr hxi
    · simp [hxi] at hx
  · intro x b hb hx
    simp [hx] at hb
  · have := searchInv_init (Adj E L) init
    convert this using 2
    · simp
    · simp
  · intro _ x hx
    by_contra hne
    simp [hne] at hx

/-- Reading the data of a found id. -/
theorem Maps.read {D : Int → Option Int} {F : Int → Option Bool} {PN PE : Int → Option Int}
    (h : Maps t D F PN PE) {w b : Int} (hw : D w = some b) :
    ∃ i f y z, binarySearch t.foundIds w = .ok i ∧ 0 ≤ i ∧ rd t.distances i = .ok b ∧
      F w = some f ∧ rd t.finalDistance i = .ok f ∧ PN w = some y ∧
      rd t.previousNodes i = .ok y ∧ PE w = some z ∧ rd t.previousEdges i = .ok z := by
  obtain ⟨xs, ds, fs, pn, pe, free, hf, rfl, rfl, rfl, rfl⟩ := h
  have hs := hf.ids.sorted
  have hmem := mem_of_assoc hw
  obtain ⟨restD, hd, _⟩ := hf.dist
  obtain ⟨restF, hfin, _⟩ := hf.final
  obtain ⟨restN, hn, _⟩ := hf.prevNode
  obtain ⟨restE, he, _⟩ := hf.prevEdge
  obtain ⟨f, hf'⟩ := exists_assoc_of_mem hf.finalLength hmem
  obtain ⟨y, hy⟩ := exists_assoc_of_mem hf.prevNodeLength hmem
  obtain ⟨z, hz⟩ := exists_assoc_of_mem hf.prevEdgeLength hmem
  refine ⟨encodeRank xs w, f, y, z, hf.search hmem, ?_, ?_, hf', ?_, hy, ?_, hz, ?_⟩
  · rw [encodeRank, if_pos hmem]
    omega
  · rw [hd]
    exact rd_encodeRank hs hf.distLength hw
  · rw [hfin]
    exact rd_encodeRank hs hf.finalLength hf'
  · rw [hn]
    exact rd_encodeRank hs hf.prevNodeLength hy
  · rw [he]
    exact rd_encodeRank hs hf.prevEdgeLength hz

/-- The search answers a negative index for an id that is not found. -/
theorem Maps.read_none {D : Int → Option Int} {F : Int → Option Bool} {PN PE : Int → Option Int}
    (h : Maps t D F PN PE) {w : Int} (hsmall : w < MAX_VALUE) (hw : D w = none) :
    ∃ i, binarySearch t.foundIds w = .ok i ∧ i < 0 := by
  obtain ⟨xs, ds, fs, pn, pe, free, hf, rfl, rfl, rfl, rfl⟩ := h
  have hmem : w ∉ xs := by
    intro hmem
    obtain ⟨b, hb⟩ := exists_assoc_of_mem hf.distLength hmem
    rw [hw] at hb
    simp at hb
  refine ⟨encodeRank xs w, binarySearch_padded hf.ids hsmall, ?_⟩
  rw [encodeRank, if_neg hmem]
  omega

theorem allNodesFound_spec {D : Int → Option Int} {F : Int → Option Bool}
    {PN PE : Int → Option Int} (h : Maps t D F PN PE) :
    ∀ nodes : List Int, (∀ w ∈ nodes, w < MAX_VALUE) →
      ∃ b, allNodesFound t nodes = .ok b ∧ (b = true → ∀ w ∈ nodes, F w = some true) := by
  intro nodes
  induction nodes with
  | nil =>
    intro _
    exact ⟨true, rfl, fun _ w hw => by simp at hw⟩
  | cons id nodes ih =>
    intro hsmall
    obtain ⟨b, hb, htrue⟩ := ih (fun w hw => hsmall w (List.mem_cons_of_mem _ hw))
    cases hD : D id with
    | none =>
      obtain ⟨i, hi, hneg⟩ := h.read_none (hsmall id List.mem_cons_self) hD
      refine ⟨false, ?_, fun hf => by simp at hf⟩
      rw [allNodesFound, hi, ok_bind, if_pos hneg]
      rfl
    | some a =>
      obtain ⟨i, f, _, _, hi, hpos, _, hF, hrf, _⟩ := h.read hD
      rw [allNodesFound, hi, ok_bind, if_neg (by omega), hrf, ok_bind]
      cases f with
      | false => exact ⟨false, rfl, fun hf => by simp at hf⟩
      | true =>
        refine ⟨b, hb, ?_⟩
        intro hbt w hw
        rcases List.mem_cons.mp hw with rfl | hw
        · exact hF
        · exact htrue hbt w hw

/-- The state in which a search from `init` for the nodes `neighbours` ends. -/
structure Finished (E : Edges) (L : Int → List Int) (V : Finset Int) (init pref : Int)
    (neighbours : List Int) (S : Finset Int) (t : CHDijkstra) (m : SearchMaps) : Prop where
  search : Search E L V init pref S t m
  init_eq : t.initialNode = init
  neighbours_eq : t.neighbours = neighbours
  exact : ∀ w ∈ neighbours, w ≠ init → ∀ d, IsDist (Adj E L) init w d ↔ m.D w = some d
  late : (∃ w ∈ neighbours, w ≠ init) →
    (∀ x, m.M x = none) ∨ ((∀ w ∈ neighbours, w ≠ init → w ∈ S) ∧ (pref ∈ S ∨ 10 ≤ S.card))

/-- `nextCalc` ends, and then it knows the distance of each neighbour. -/
theorem nextCalc_spec (hg : SearchGraph E G L V) (h : Ready t) (hinit : init ∈ V)
    (pref : Int) {neighbours : List Int} (hn : ∀ w ∈ neighbours, w ∈ V) :
    ∃ S t' m, nextCalc E G t init neighbours pref = .ok t' ∧
      t'.shortcuts = t.shortcuts ∧ t'.nodeIdsToCalc = t.nodeIdsToCalc ∧
      Finished E L V init pref neighbours S t' m := by
  have hnn : ∀ u v l, Adj E L u v l → 0 ≤ l := by
    rintro u v l ⟨e, he, _, rfl⟩
    exact hg.nonneg u e he
  obtain ⟨t₀, m₀, hstart, h1, h2, h3, h4, hs₀⟩ := startSearch_spec (E := E) (L := L)
    h hinit (hg.small init hinit) pref neighbours
  have hguard : ∀ S t m, SameSearch t₀ t → Search E L V init pref S t m →
      ∃ b, allNodesFound t t.neighbours = .ok b ∧
        searchGuard t = .ok (!b && !t.heap.isEmpty) ∧
        (b = true → ∀ w ∈ neighbours, m.F w = some true) := by
    intro S t m hsame hs
    have hnb : t.neighbours = neighbours := hsame.neighbours.trans h1
    obtain ⟨b, hb, hF⟩ := allNodesFound_spec hs.state.maps neighbours
      (fun w hw => hg.small w (hn w hw))
    refine ⟨b, by rw [hnb]; exact hb, ?_, hF⟩
    unfold searchGuard
    rw [hnb, hb, ok_bind]
    cases b <;> rfl
  obtain ⟨t', k', hrun, ⟨S, m, hsame, hs, hcase, _⟩, hexit⟩ := whileLoop_bounded
    (c := searchGuard) (f := multipleNextSteps E G pref)
    (I := fun k t => ∃ S m, SameSearch t₀ t ∧ Search E L V init pref S t m ∧
      (S = ∅ ∨ t.heap.isEmpty = true ∨ pref ∈ S ∨ 10 ≤ S.card) ∧ stepBound V pref S m.M ≤ k)
    (by
      rintro k t ⟨S, m, hsame, hs, _⟩
      obtain ⟨b, _, hg', _⟩ := hguard S t m hsame hs
      exact ⟨_, hg'⟩)
    (by
      rintro k t ⟨S, m, hsame, hs, _, hk⟩ htrue
      obtain ⟨b, _, hg', _⟩ := hguard S t m hsame hs
      rw [htrue, Except.ok.injEq] at hg'
      have hne : t.heap.isEmpty = false := by
        cases hem : t.heap.isEmpty with
        | true => simp [hem] at hg'
        | false => rfl
      obtain ⟨S', t', m', hrun, hsame', hs', hsub, hcase, _, hlt⟩ :=
        nextSteps_spec hg MULTIPLE_STEP_NUMBER S t m hs
      refine ⟨t', stepBound V pref S' m'.M, hrun,
        ⟨S', m', hsame.trans hsame', hs', Or.inr ?_, le_refl _⟩,
        lt_of_lt_of_le (hlt (by decide) hne) hk⟩
      rcases hcase with hc | hc | hc
      · exact Or.inl hc
      · exact Or.inr (Or.inl hc)
      · exact Or.inr (Or.inr (le_trans (by rw [MULTIPLE_STEP_NUMBER]; omega) hc)))
    (2 * G.currentEdgeIds.length) (stepBound V pref ∅ m₀.M) t₀
    ⟨∅, m₀, SameSearch.refl t₀, hs₀, Or.inl rfl, le_refl _⟩
    (le_trans (stepBound_le V pref ∅ m₀.M (Finset.empty_subset V)) (by have := hg.card; omega))
  obtain ⟨b, _, hg', hF⟩ := hguard S t' m hsame hs
  rw [hexit, Except.ok.injEq] at hg'
  have hend : (∀ x, m.M x = none) ∨ ∀ w ∈ neighbours, w ≠ init → w ∈ S := by
    cases b with
    | true =>
      refine Or.inr ?_
      intro w hw hwi
      exact (hs.state.final w (hF rfl w hw)).resolve_right hwi
    | false =>
      have hem : t'.heap.isEmpty = true := by simpa using hg'.symm
      exact Or.inl ((DistanceHeap.isEmpty_iff hs.state.heap).mp hem)
  refine ⟨S, t', m, ?_, hsame.shortcuts.trans h3, hsame.nodeIds.trans h4, hs,
    hsame.initialNode.trans h2, hsame.neighbours.trans h1, ?_, ?_⟩
  · rw [nextCalc, hstart, ok_bind, hrun]
  · intro w hw hwi d
    rcases hend with hempty | hall
    · exact hs.inv.isDist_of_empty hnn (fun x hx => hx (hempty x)) w d
    · obtain ⟨b, hb⟩ := hs.inv.settled w (hall w hw hwi)
      have hexact := hs.inv.exact w b (hall w hw hwi) hb
      rw [hb, Option.some.injEq]
      constructor
      · exact fun hd => hexact.unique hd
      · rintro rfl
        exact hexact
  · rintro ⟨w, hw, hwi⟩
    rcases hend with hempty | hall
    · exact Or.inl hempty
    · rcases hcase with rfl | hem | hp | hc
      · exact absurd (hall w hw hwi) (Finset.notMem_empty w)
      · exact Or.inl ((DistanceHeap.isEmpty_iff hs.state.heap).mp hem)
      · exact Or.inr ⟨hall, Or.inl hp⟩
      · exact Or.inr ⟨hall, Or.inr hc⟩

/-! ## The shortcuts of one node -/

/-- Ten nodes other than `c` are within the distance `d` of `u`, so that a block
of ten steps from `u` can leave out `c`. -/
def Crowded (E : Edges) (L : Int → List Int) (c u d : Int) : Prop :=
  ∃ T : Finset Int, c ∉ T ∧ 10 ≤ T.card ∧ ∀ x ∈ T, ∃ b, IsDist (Adj E L) u x b ∧ b ≤ d

/-- `s` stands for the way from its start over `c` to its destination, and that
way is a shortest path. -/
structure IsShortcut (E : Edges) (L : Int → List Int) (c : Int) (s : Shortcut) : Prop where
  ne : s.startId ≠ s.destId
  first : s.edgeId2 ∈ L s.startId
  first_dest : E.destOf s.edgeId2 = c
  second : s.edgeId1 ∈ L c
  second_dest : E.destOf s.edgeId1 = s.destId
  length : s.distance = E.distOf s.edgeId2 + E.distOf s.edgeId1
  dist : IsDist (Adj E L) s.startId s.destId s.distance

/-- The edges of `c` and those that lead back to it join `c` to the same nodes. -/
def Mutual (E : Edges) (L : Int → List Int) (c : Int) : Prop :=
  ∀ x, (∃ e ∈ L c, E.destOf e = x) ↔ ∃ e ∈ L x, E.destOf e = c

variable {neighbours : List Int}

/-- A shortest way over `pref` is the one that the search has found. -/
theorem Finished.complete (hg : SearchGraph E G L V)
    (h : Finished E L V init pref neighbours S t m) {e e' w : Int} (he : e ∈ L init)
    (hec : E.destOf e = pref) (he' : e' ∈ L pref) (hew : E.destOf e' = w) (hw : w ∈ neighbours)
    (hwi : w ≠ init) (hd : IsDist (Adj E L) init w (E.distOf e + E.distOf e'))
    (hpos : 0 < E.distOf e' ∨ ¬ Crowded E L pref init (E.distOf e)) :
    m.PN pref = some init ∧ m.PN w = some pref := by
  have hnn : ∀ u v l, Adj E L u v l → 0 ≤ l := by
    rintro u v l ⟨e, he, _, rfl⟩
    exact hg.nonneg u e he
  have hDw := (h.exact w hw hwi _).mp hd
  have hdc : IsDist (Adj E L) init pref (E.distOf e) :=
    (hd.split (Walk.single ⟨e, he, hec, rfl⟩) (Walk.single ⟨e', he', hew, rfl⟩)).1
  have hpS : pref ∈ S := by
    rcases h.late ⟨w, hw, hwi⟩ with hempty | ⟨hall, hp | hcard⟩
    · have hD := (h.search.inv.isDist_of_empty hnn (fun x hx => hx (hempty x)) pref _).mp hdc
      exact (h.search.inv.cover pref _ hD).resolve_right (fun hx => hx (hempty pref))
    · exact hp
    · by_contra hp
      have hwS := hall w hw hwi
      -- `pref` is still in the heap, so no node that left it is farther than `pref`
      have hiS := h.search.started (Finset.nonempty_iff_ne_empty.mp ⟨w, hwS⟩)
      obtain ⟨a, ha, hle⟩ := h.search.inv.relaxed init 0 pref (E.distOf e) hiS
        h.search.inv.source ⟨e, he, hec, rfl⟩
      have hQ := (h.search.inv.cover pref a ha).resolve_left hp
      rcases hpos with hpos | hpos
      · have := h.search.inv.mono w pref _ a hwS hQ hDw ha
        omega
      · refine hpos ⟨S, hp, hcard, ?_⟩
        intro x hx
        obtain ⟨b, hb⟩ := h.search.inv.settled x hx
        have := h.search.inv.mono x pref b a hx hQ hb ha
        exact ⟨b, h.search.inv.exact x b hx hb, by omega⟩
  obtain ⟨a, ha⟩ := h.search.inv.settled pref hpS
  have hae := (h.search.inv.exact pref a hpS ha).unique hdc
  have hfirst := h.search.state.first e
    (by rw [if_neg (Finset.nonempty_iff_ne_empty.mp ⟨pref, hpS⟩)]; exact he) hec
  obtain ⟨b, hb, _, hPN⟩ := hfirst
  obtain ⟨a', b', ha', hb', _, hPN'⟩ := h.search.state.prefer e'
    (by rw [if_pos hpS]; exact he')
  rw [ha, Option.some.injEq] at hb ha'
  rw [hew, hDw, Option.some.injEq] at hb'
  refine ⟨hPN (by omega), ?_⟩
  rw [hew] at hPN'
  exact hPN' (by omega) hwi

/-- The pair that the search notes is a shortcut. -/
theorem Finished.sound (h : Finished E L V init pref neighbours S t m) (hpi : pref ≠ init)
    {w a d e₁ e₂ : Int} (hw : w ∈ neighbours) (hwi : w ≠ init) (hDp : m.D pref = some a)
    (hDw : m.D w = some d) (hPN : m.PN pref = some init) (hPNw : m.PN w = some pref)
    (hPE : m.PE pref = some e₂) (hPEw : m.PE w = some e₁) :
    IsShortcut E L pref ⟨init, w, d, e₁, e₂⟩ := by
  obtain ⟨u, e, b, _, h1, h2, h3, h4, h5, h6⟩ := h.search.state.prev w d hDw hwi
  obtain ⟨u', e', b', _, h1', h2', h3', h4', h5', h6'⟩ := h.search.state.prev pref a hDp hpi
  rw [hPNw, Option.some.injEq] at h1
  rw [hPEw, Option.some.injEq] at h2
  rw [hPN, Option.some.injEq] at h1'
  rw [hPE, Option.some.injEq] at h2'
  subst h1 h2 h1' h2'
  rw [hDp, Option.some.injEq] at h3
  rw [h.search.inv.source, Option.some.injEq] at h3'
  refine ⟨Ne.symm hwi, h4', h5', h4, h5, ?_, (h.exact w hw hwi d).mpr hDw⟩
  show d = E.distOf e₂ + E.distOf e₁
  omega

/-- One iteration of the loop of `addShortcuts`. -/
theorem addShortcut_spec (h : Finished E L V init pref neighbours S t m) (hpi : pref ≠ init)
    {t₁ : CHDijkstra} {new : List Shortcut} (ht₁ : t₁ = { t with shortcuts := t.shortcuts ++ new })
    {w a d i e₂ : Int} (hw : w ∈ neighbours) (hDp : m.D pref = some a)
    (hDw : w ≠ init → m.D w = some d) (hsmall : w < MAX_VALUE)
    (hPN : m.PN pref = some init) (hPE : m.PE pref = some e₂)
    (hrd : rd t.previousEdges i = .ok e₂) :
    ∃ more, addShortcut pref i t₁ w = .ok { t with shortcuts := t.shortcuts ++ (new ++ more) } ∧
      (∀ s ∈ more, s.startId = init ∧ IsShortcut E L pref s) ∧
      (w ≠ init → m.PN w = some pref → ∃ s ∈ more, s.destId = w) := by
  subst ht₁
  unfold addShortcut
  by_cases hwi : w = init
  · have hidx : ∃ j, binarySearch t.foundIds w = .ok j := by
      cases hD : m.D w with
      | none =>
        obtain ⟨j, hj, _⟩ := h.search.state.maps.read_none hsmall hD
        exact ⟨j, hj⟩
      | some b =>
        obtain ⟨j, _, _, _, hj, _⟩ := h.search.state.maps.read hD
        exact ⟨j, hj⟩
    obtain ⟨j, hj⟩ := hidx
    refine ⟨[], ?_, by simp, fun hne => absurd hwi hne⟩
    simp only [hj, ok_bind, h.init_eq, if_pos hwi, List.append_nil]
    rfl
  · obtain ⟨j, _, y, z, hj, _, hrd', _, _, hy, hry, hz, hrz⟩ := h.search.state.maps.read (hDw hwi)
    by_cases hyp : y = pref
    · refine ⟨[⟨init, w, d, z, e₂⟩], ?_, ?_, fun _ _ => ⟨_, List.mem_singleton.mpr rfl, rfl⟩⟩
      · simp only [hj, ok_bind, h.init_eq, if_neg hwi, hry, if_pos hyp, hrd', hrz, hrd]
        simp only [pure_eq_ok, List.append_assoc]
      · intro s hs
        rw [List.mem_singleton.mp hs]
        exact ⟨rfl, h.sound hpi hw hwi hDp (hDw hwi) hPN (hyp ▸ hy) hPE hz⟩
    · refine ⟨[], ?_, by simp, ?_⟩
      · simp only [hj, ok_bind, h.init_eq, if_neg hwi, hry, if_neg hyp, List.append_nil]
        rfl
      · intro _ hpn
        rw [hy, Option.some.injEq] at hpn
        exact absurd hpn hyp

/-- What a search from `init` has to note for the node `c`: nothing but
shortcuts, and one for each neighbour that is best reached over `c`. -/
structure Notes (E : Edges) (L : Int → List Int) (c init : Int) (new : List Shortcut) :
    Prop where
  sound : ∀ s ∈ new, s.startId = init ∧ IsShortcut E L c s
  complete : ∀ w ≠ init, ∀ e ∈ L init, E.destOf e = c → ∀ e' ∈ L c, E.destOf e' = w →
    IsDist (Adj E L) init w (E.distOf e + E.distOf e') →
    (0 < E.distOf e' ∨ ¬ Crowded E L c init (E.distOf e)) → ∃ s ∈ new, s.destId = w

theorem notes_nil (hg : SearchGraph E G L V) (hn : neighbours = (L pref).map E.destOf)
    (h : Finished E L V init pref neighbours S t m)
    (hno : m.PN pref ≠ some init ∨ m.D pref = none) : Notes E L pref init [] := by
  refine ⟨by simp, ?_⟩
  intro w hwi e he hec e' he' hew hd hpos
  have hw : w ∈ neighbours := by
    rw [hn, ← hew]
    exact List.mem_map_of_mem he'
  obtain ⟨hPN, hPNw⟩ := h.complete hg he hec he' hew hw hwi hd hpos
  rcases hno with hno | hno
  · exact absurd hPN hno
  · have hDw := (h.exact w hw hwi _).mp hd
    obtain ⟨u, _, b, _, h1, _, h3, _⟩ := h.search.state.prev w _ hDw hwi
    rw [hPNw, Option.some.injEq] at h1
    rw [← h1, hno] at h3
    simp at h3

theorem addShortcuts_spec (hg : SearchGraph E G L V) (hn : neighbours = (L pref).map E.destOf)
    (h : Finished E L V init pref neighbours S t m) (hpi : pref ≠ init) (hprefV : pref ∈ V)
    (hback : ∃ e ∈ L init, E.destOf e = pref) :
    ∃ new, addShortcuts t pref = .ok { t with shortcuts := t.shortcuts ++ new } ∧
      Notes E L pref init new := by
  have hnn : ∀ u v l, Adj E L u v l → 0 ≤ l := by
    rintro u v l ⟨e, he, _, rfl⟩
    exact hg.nonneg u e he
  have hmaps := h.search.state.maps
  cases hDp : m.D pref with
  | none =>
    obtain ⟨i, hi, hneg⟩ := hmaps.read_none (hg.small pref hprefV) hDp
    refine ⟨[], ?_, notes_nil hg hn h (Or.inr hDp)⟩
    rw [addShortcuts, hi, ok_bind, if_pos hneg, List.append_nil]
    rfl
  | some a =>
    obtain ⟨i, _, y, e₂, hi, hpos, _, _, _, hy, hry, hPE, hre⟩ := hmaps.read hDp
    by_cases hyi : y = init
    · subst hyi
      have hfound : ∀ w ∈ neighbours, ∃ d, w ≠ y → m.D w = some d := by
        intro w hw
        by_cases hwi : w = y
        · exact ⟨0, fun hne => absurd hwi hne⟩
        · obtain ⟨e, he, hec⟩ := hback
          rw [hn] at hw
          obtain ⟨e', he', hew⟩ := List.mem_map.mp hw
          obtain ⟨d, hd⟩ := exists_isDist hnn
            ((Walk.single (E := Adj E L) ⟨e, he, hec, rfl⟩).snoc ⟨e', he', hew, rfl⟩)
          exact ⟨d, fun _ => (h.exact w (hn ▸ hw) hwi d).mp hd⟩
      obtain ⟨t', hrun, new, rfl, hsound, hcomplete⟩ := foldlM_spec
        (f := addShortcut pref i)
        (P := fun pre t' => ∃ new, t' = { t with shortcuts := t.shortcuts ++ new } ∧
          (∀ s ∈ new, s.startId = y ∧ IsShortcut E L pref s) ∧
          ∀ w ∈ pre, w ≠ y → m.PN w = some pref → ∃ s ∈ new, s.destId = w)
        neighbours t ⟨[], by simp, by simp, by simp⟩ (by
          rintro pre w post t₁ hsplit ⟨new, ht₁, hsound, hcomplete⟩
          have hw : w ∈ neighbours := by rw [hsplit]; simp
          obtain ⟨d, hd⟩ := hfound w hw
          have hwV : w ∈ V := by
            rw [hn] at hw
            obtain ⟨e', he', hew⟩ := List.mem_map.mp hw
            exact hew ▸ (hg.dest pref e' he').1
          obtain ⟨more, hstep, hs', hc'⟩ := addShortcut_spec h hpi ht₁ hw hDp hd
            (hg.small w hwV) hy hPE hre
          refine ⟨_, hstep, new ++ more, rfl, ?_, ?_⟩
          · intro s hs
            rcases List.mem_append.mp hs with hs | hs
            · exact hsound s hs
            · exact hs' s hs
          · intro x hx hxi hPNx
            rcases List.mem_append.mp hx with hx | hx
            · obtain ⟨s, hs, hdest⟩ := hcomplete x hx hxi hPNx
              exact ⟨s, List.mem_append_left _ hs, hdest⟩
            · rw [List.mem_singleton] at hx
              subst hx
              obtain ⟨s, hs, hdest⟩ := hc' hxi hPNx
              exact ⟨s, List.mem_append_right _ hs, hdest⟩)
      refine ⟨new, ?_, hsound, ?_⟩
      · rw [← h.neighbours_eq] at hrun
        rw [addShortcuts, hi, ok_bind, if_neg (by omega), hry, ok_bind,
          if_neg (by simp [h.init_eq]), hrun]
      · intro w hwi e he hec e' he' hew hd hpos
        have hw : w ∈ neighbours := by
          rw [hn, ← hew]
          exact List.mem_map_of_mem he'
        exact hcomplete w hw hwi (h.complete hg he hec he' hew hw hwi hd hpos).2
    · refine ⟨[], ?_, notes_nil hg hn h (Or.inl ?_)⟩
      · rw [addShortcuts, hi, ok_bind, if_neg (by omega), hry, ok_bind,
          if_pos (by rw [h.init_eq]; exact hyi), List.append_nil]
        rfl
      · rw [hy, ne_eq, Option.some.injEq]
        exact hyi

/-- What has to be noted for the nodes `cs`, over all searches. -/
structure NotesAll (E : Edges) (L : Int → List Int) (cs : List Int) (new : List Shortcut) :
    Prop where
  sound : ∀ s ∈ new, ∃ c ∈ cs, IsShortcut E L c s
  complete : ∀ c ∈ cs, ∀ u w, w ≠ u → ∀ e ∈ L u, E.destOf e = c → ∀ e' ∈ L c, E.destOf e' = w →
    IsDist (Adj E L) u w (E.distOf e + E.distOf e') →
    (0 < E.distOf e' ∨ ¬ Crowded E L c u (E.distOf e)) →
    ∃ s ∈ new, s.startId = u ∧ s.destId = w

theorem notesAll_nil : NotesAll E L [] [] :=
  ⟨fun s hs => by simp at hs, fun c hc => by simp at hc⟩

theorem NotesAll.append {cs cs' : List Int} {new new' : List Shortcut}
    (h : NotesAll E L cs new) (h' : NotesAll E L cs' new') :
    NotesAll E L (cs ++ cs') (new ++ new') := by
  constructor
  · intro s hs
    rcases List.mem_append.mp hs with hs | hs
    · obtain ⟨c, hc, hsc⟩ := h.sound s hs
      exact ⟨c, List.mem_append_left _ hc, hsc⟩
    · obtain ⟨c, hc, hsc⟩ := h'.sound s hs
      exact ⟨c, List.mem_append_right _ hc, hsc⟩
  · intro c hc u w hwu e he hec e' he' hew hd hpos
    rcases List.mem_append.mp hc with hc | hc
    · obtain ⟨s, hs, heq⟩ := h.complete c hc u w hwu e he hec e' he' hew hd hpos
      exact ⟨s, List.mem_append_left _ hs, heq⟩
    · obtain ⟨s, hs, heq⟩ := h'.complete c hc u w hwu e he hec e' he' hew hd hpos
      exact ⟨s, List.mem_append_right _ hs, heq⟩

/-- The searches from the neighbours of one node. -/
theorem contractNode_spec (hg : SearchGraph E G L V) (h : Ready t) {c : Int} (hcV : c ∈ V)
    (hmut : Mutual E L c) :
    ∃ t' new, contractNode E G t c = .ok t' ∧ Ready t' ∧ t'.nodeIdsToCalc = t.nodeIdsToCalc ∧
      t'.shortcuts = t.shortcuts ++ new ∧ NotesAll E L [c] new := by
  obtain ⟨rest, hrow, hcount⟩ := hg.lists c hcV
  have hslice : slice (L c ++ rest) 0 ((L c).length : Int) = .ok (L c) := slice_append
  have hmap : (L c).mapM E.getDest = .ok ((L c).map E.destOf) :=
    mapM_eq_ok (L c) (hg.getDest c)
  unfold contractNode
  simp only [DynamicGrid.getCurrentEdgeCount, DynamicGrid.getCurrentEdges, hcount, ok_bind]
  by_cases hfew : ((L c).length : Int) < 2
  · rw [if_pos hfew]
    refine ⟨t, [], rfl, h, rfl, by simp, fun s hs => by simp at hs, ?_⟩
    intro c' hc u w hwu e he hec e' he' hew _ _
    rw [List.mem_singleton] at hc
    subst hc
    -- two different neighbours need two edges
    obtain ⟨e'', he'', heu⟩ := (hmut u).mpr ⟨e, he, hec⟩
    have hne : e'' ≠ e' := fun heq => hwu (by rw [← hew, ← heq, heu])
    match hL : L c' with
    | [] => simp [hL] at he'
    | [x] =>
      rw [hL, List.mem_singleton] at he'' he'
      exact absurd (he''.trans he'.symm) hne
    | _ :: _ :: _ =>
      simp only [hL, List.length_cons] at hfew
      omega
  · rw [if_neg hfew]
    simp only [hrow, ok_bind, hslice, hmap]
    obtain ⟨t', hrun, hready, hids, new, hnew, hsound, hcomplete⟩ := foldlM_spec
      (f := fun t neighbourId => do
        let t ← nextCalc E G t neighbourId ((L c).map E.destOf) c
        addShortcuts t c)
      (P := fun pre t' => Ready t' ∧ t'.nodeIdsToCalc = t.nodeIdsToCalc ∧ ∃ new,
        t'.shortcuts = t.shortcuts ++ new ∧ (∀ s ∈ new, IsShortcut E L c s) ∧
        ∀ u ∈ pre, ∀ w ≠ u, ∀ e ∈ L u, E.destOf e = c → ∀ e' ∈ L c, E.destOf e' = w →
          IsDist (Adj E L) u w (E.distOf e + E.distOf e') →
          (0 < E.distOf e' ∨ ¬ Crowded E L c u (E.distOf e)) →
          ∃ s ∈ new, s.startId = u ∧ s.destId = w)
      ((L c).map E.destOf) t ⟨h, rfl, [], by simp, by simp, by simp⟩ (by
        rintro pre u post t₁ hsplit ⟨hready, hids, new, hnew, hsound, hcomplete⟩
        have hu : u ∈ (L c).map E.destOf := by rw [hsplit]; simp
        obtain ⟨e₀, he₀, heu⟩ := List.mem_map.mp hu
        obtain ⟨huV, huc⟩ := hg.dest c e₀ he₀
        rw [heu] at huV huc
        have hnear : ∀ w ∈ (L c).map E.destOf, w ∈ V := by
          intro w hw
          obtain ⟨e', he', rfl⟩ := List.mem_map.mp hw
          exact (hg.dest c e' he').1
        obtain ⟨S, t₂, m, hcalc, hsc, hid, hfin⟩ := nextCalc_spec hg hready huV c hnear
        obtain ⟨more, hadd, hnotes⟩ := addShortcuts_spec hg rfl hfin (Ne.symm huc) hcV
          ((hmut u).mp ⟨e₀, he₀, heu⟩)
        have hready₂ := hfin.search.ready
        refine ⟨{ t₂ with shortcuts := t₂.shortcuts ++ more }, by rw [hcalc, ok_bind, hadd],
          ⟨hready₂.pos, hready₂.dist, hready₂.final, hready₂.prevNode, hready₂.prevEdge,
            hready₂.heap⟩, hid.trans hids, new ++ more, ?_, ?_, ?_⟩
        · simp only [hsc, hnew, List.append_assoc]
        · intro s hs
          rcases List.mem_append.mp hs with hs | hs
          · exact hsound s hs
          · exact (hnotes.sound s hs).2
        · intro x hx w hwx e he hec e' he' hew hd hpos
          rcases List.mem_append.mp hx with hx | hx
          · obtain ⟨s, hs, heq⟩ := hcomplete x hx w hwx e he hec e' he' hew hd hpos
            exact ⟨s, List.mem_append_left _ hs, heq⟩
          · rw [List.mem_singleton] at hx
            subst hx
            obtain ⟨s, hs, heq⟩ := hnotes.complete w hwx e he hec e' he' hew hd hpos
            exact ⟨s, List.mem_append_right _ hs, (hnotes.sound s hs).1, heq⟩)
    refine ⟨t', new, hrun, hready, hids, hnew,
      fun s hs => ⟨c, List.mem_singleton.mpr rfl, hsound s hs⟩, ?_⟩
    intro c' hc u w hwu e he hec e' he' hew hd hpos
    rw [List.mem_singleton] at hc
    subst hc
    obtain ⟨e'', he'', heu⟩ := (hmut u).mpr ⟨e, he, hec⟩
    exact hcomplete u (heu ▸ List.mem_map_of_mem he'') w hwu e he hec e' he' hew hd hpos

/-- A whole run of a thread. -/
theorem run_spec (hg : SearchGraph E G L V) (h : Ready t)
    (hnodes : ∀ c ∈ t.nodeIdsToCalc, c ∈ V ∧ Mutual E L c) :
    ∃ t', run E G t = .ok t' ∧ NotesAll E L t.nodeIdsToCalc t'.shortcuts := by
  obtain ⟨t', hrun, _, hnotes⟩ := foldlM_spec (f := contractNode E G)
    (P := fun pre t' => Ready t' ∧ NotesAll E L pre t'.shortcuts)
    t.nodeIdsToCalc { t with shortcuts := [] }
    ⟨⟨h.pos, h.dist, h.final, h.prevNode, h.prevEdge, h.heap⟩, notesAll_nil⟩ (by
      rintro pre c post t₁ hsplit ⟨hready, hnotes⟩
      obtain ⟨hcV, hmut⟩ := hnodes c (by rw [hsplit]; simp)
      obtain ⟨t₂, new, hstep, hready₂, _, hnew, hnotes₂⟩ := contractNode_spec hg hready hcV hmut
      refine ⟨t₂, hstep, hready₂, ?_⟩
      rw [hnew]
      exact hnotes.append hnotes₂)
  refine ⟨{ t' with nodeIdsToCalc := [] }, ?_, hnotes⟩
  rw [run]
  simp only [hrun, ok_bind, pure_eq_ok]

/-- What a thread emits for the node `c`, in a graph without edges of length 0:
a shortcut from one neighbour `u` of `c` to another one `w` if and only if the
way over the shortest edges `u → c` and `c → w` is a shortest path, and the
parts of each shortcut are such shortest edges. -/
structure Emits (E : Edges) (L : Int → List Int) (c : Int) (new : List Shortcut) : Prop where
  iff : ∀ u w, u ≠ w → (∃ l, Adj E L c u l) → (∃ l, Adj E L c w l) →
    ((∃ s ∈ new, s.startId = u ∧ s.destId = w) ↔
      ∃ a b, IsLeast {l | Adj E L u c l} a ∧ IsLeast {l | Adj E L c w l} b ∧
        IsDist (Adj E L) u w (a + b))
  first : ∀ s ∈ new, s.edgeId2 ∈ L s.startId ∧ E.destOf s.edgeId2 = c ∧
    IsLeast {l | Adj E L s.startId c l} (E.distOf s.edgeId2)
  second : ∀ s ∈ new, s.edgeId1 ∈ L c ∧ E.destOf s.edgeId1 = s.destId ∧
    IsLeast {l | Adj E L c s.destId l} (E.distOf s.edgeId1)
  distance : ∀ s ∈ new, s.distance = E.distOf s.edgeId2 + E.distOf s.edgeId1 ∧
    IsDist (Adj E L) s.startId s.destId s.distance

/-- The two edges of a shortest way over `c` are shortest edges. -/
theorem isLeast_of_isDist {c u w a b : Int} (hd : IsDist (Adj E L) u w (a + b))
    (ha : Adj E L u c a) (hb : Adj E L c w b) :
    IsLeast {l | Adj E L u c l} a ∧ IsLeast {l | Adj E L c w l} b := by
  obtain ⟨hda, hdb⟩ := hd.split (Walk.single ha) (Walk.single hb)
  constructor
  · refine ⟨ha, ?_⟩
    intro l hl
    exact hda.2 l (Walk.single hl)
  · refine ⟨hb, ?_⟩
    intro l hl
    exact hdb.2 l (Walk.single hl)

theorem NotesAll.emits {c : Int} {new : List Shortcut} (h : NotesAll E L [c] new)
    (hpos : ∀ u v l, Adj E L u v l → 0 < l) : Emits E L c new := by
  have hsound : ∀ s ∈ new, IsShortcut E L c s := by
    intro s hs
    obtain ⟨c', hc', hsc⟩ := h.sound s hs
    rw [List.mem_singleton] at hc'
    exact hc' ▸ hsc
  have hleast : ∀ s ∈ new, IsLeast {l | Adj E L s.startId c l} (E.distOf s.edgeId2) ∧
      IsLeast {l | Adj E L c s.destId l} (E.distOf s.edgeId1) := by
    intro s hs
    have hsc := hsound s hs
    apply isLeast_of_isDist (hsc.length ▸ hsc.dist)
    · exact ⟨_, hsc.first, hsc.first_dest, rfl⟩
    · exact ⟨_, hsc.second, hsc.second_dest, rfl⟩
  constructor
  · intro u w huw _ _
    constructor
    · rintro ⟨s, hs, rfl, rfl⟩
      exact ⟨_, _, (hleast s hs).1, (hleast s hs).2, (hsound s hs).length ▸ (hsound s hs).dist⟩
    · rintro ⟨a, b, ⟨⟨e, he, hec, rfl⟩, _⟩, ⟨⟨e', he', hew, rfl⟩, _⟩, hd⟩
      have hpos' := hpos c w _ ⟨e', he', hew, rfl⟩
      exact h.complete c (List.mem_singleton.mpr rfl) u w (Ne.symm huw) e he hec e' he' hew hd
        (Or.inl hpos')
  · intro s hs
    exact ⟨(hsound s hs).first, (hsound s hs).first_dest, (hleast s hs).1⟩
  · intro s hs
    exact ⟨(hsound s hs).second, (hsound s hs).second_dest, (hleast s hs).2⟩
  · intro s hs
    exact ⟨(hsound s hs).length, (hsound s hs).dist⟩

/-- In a symmetric graph with positive lengths, a thread emits for each of its
nodes the shortcuts of the shortest ways over it, one list after the other.
`Ready` asks only for the sizes of the arrays of the thread, so their contents
may be those of earlier searches.  No sum that the search forms is longer than
all edges together, so the unbounded `Int` stands for the `int` of the source. -/
theorem run_emits (hg : SearchGraph E G L V) (hsymm : ∀ u v l, Adj E L u v l → Adj E L v u l)
    (hpos : ∀ u v l, Adj E L u v l → 0 < l) (h : Ready t)
    (hnodes : ∀ c ∈ t.nodeIdsToCalc, c ∈ V) :
    ∃ t' news, run E G t = .ok t' ∧ t'.shortcuts = news.flatten ∧
      List.Forall₂ (Emits E L) t.nodeIdsToCalc news := by
  have hmut : ∀ c, Mutual E L c := by
    intro c x
    constructor
    · rintro ⟨e, he, hd⟩
      obtain ⟨e', he', hd', _⟩ := hsymm c x _ ⟨e, he, hd, rfl⟩
      exact ⟨e', he', hd'⟩
    · rintro ⟨e, he, hd⟩
      obtain ⟨e', he', hd', _⟩ := hsymm x c _ ⟨e, he, hd, rfl⟩
      exact ⟨e', he', hd'⟩
  obtain ⟨t', hrun, _, news, hnews, hall⟩ := foldlM_spec (f := contractNode E G)
    (P := fun pre t' => Ready t' ∧ ∃ news, t'.shortcuts = news.flatten ∧
      List.Forall₂ (Emits E L) pre news)
    t.nodeIdsToCalc { t with shortcuts := [] }
    ⟨⟨h.pos, h.dist, h.final, h.prevNode, h.prevEdge, h.heap⟩, [], rfl, List.Forall₂.nil⟩ (by
      rintro pre c post t₁ hsplit ⟨hready, news, hnews, hall⟩
      have hcV := hnodes c (by rw [hsplit]; simp)
      obtain ⟨t₂, new, hstep, hready₂, _, hnew, hnotes⟩ :=
        contractNode_spec hg hready hcV (hmut c)
      refine ⟨t₂, hstep, hready₂, news ++ [new], ?_, ?_⟩
      · rw [hnew, hnews, List.flatten_append, List.flatten_singleton]
      · exact List.rel_append hall
          (List.Forall₂.cons (hnotes.emits hpos) List.Forall₂.nil))
  refine ⟨{ t' with nodeIdsToCalc := [] }, news, ?_, hnews, hall⟩
  rw [run]
  simp only [hrun, ok_bind, pure_eq_ok]

/-- The edges of the path `0 — 1 — 2`, all of length 1. -/
def pathEdges : Edges :=
  Edges.initializeForShortcutEdges [0, 1, 1, 2] [1, 0, 2, 1] [1, 1, 1, 1] 4

def pathGrid : DynamicGrid :=
  DynamicGrid.initializeEdges [[0, 0], [1, 2], [3, 0]] [1, 2, 1]

theorem pathGrid_outside {u : Int} (hu : u ∉ ({0, 1, 2} : Finset Int)) :
    pathGrid.current u = [] := by
  cases hrow : rd pathGrid.currentEdgeIds u with
  | error e => simp [DynamicGrid.current, DynamicGrid.listOf, hrow]
  | ok row =>
    have hb : 0 ≤ u ∧ u < (3 : Nat) := rd_bounds hrow
    simp only [Finset.mem_insert, Finset.mem_singleton] at hu
    omega

/-- The nodes of the path with their edges. -/
def pathRows : List (Int × Int) := [(0, 0), (1, 1), (1, 2), (2, 3)]

theorem mem_pathRows {u e : Int} (he : e ∈ pathGrid.current u) : (u, e) ∈ pathRows := by
  by_cases hu : u ∈ ({0, 1, 2} : Finset Int)
  · have h : ∀ u ∈ ({0, 1, 2} : Finset Int), ∀ e ∈ pathGrid.current u, (u, e) ∈ pathRows := by
      decide
    exact h u hu e he
  · rw [pathGrid_outside hu] at he
    simp at he

/-- A property of all edges of the path holds if it holds of the four. -/
theorem forall_pathGrid {p : Int → Int → Prop}
    (h : ∀ x ∈ pathRows, p x.1 x.2) :
    ∀ u, ∀ e ∈ pathGrid.current u, p u e := by
  intro u e he
  exact h (u, e) (mem_pathRows he)

theorem pathGrid_searchGraph :
    SearchGraph pathEdges pathGrid pathGrid.current ({0, 1, 2} : Finset Int) where
  lists := by
    intro u hu
    simp only [Finset.mem_insert, Finset.mem_singleton] at hu
    rcases hu with rfl | rfl | rfl
    · exact ⟨[0], rfl, rfl⟩
    · exact ⟨[], rfl, rfl⟩
    · exact ⟨[0], rfl, rfl⟩
  card := by decide
  small := by decide
  outside := fun u hu => pathGrid_outside hu
  getDest := forall_pathGrid (by decide)
  getDist := forall_pathGrid (by decide)
  dest := forall_pathGrid (by decide)
  nonneg := forall_pathGrid (by decide)

/-- The thread may have old values in its arrays: the middle of the path is
contracted after a search that left flags, nodes and edges behind. -/
theorem run_emits_path :
    ∃ t' news, run pathEdges pathGrid
        { new with
          nodeIdsToCalc := [1]
          finalDistance := List.replicate 10 true
          previousNodes := List.replicate 10 1
          previousEdges := List.replicate 10 2 } = .ok t' ∧
      t'.shortcuts = news.flatten ∧
      List.Forall₂ (Emits pathEdges pathGrid.current) [1] news := by
  have hback : ∀ u, ∀ e ∈ pathGrid.current u, ∃ e' ∈ pathGrid.current (pathEdges.destOf e),
      pathEdges.destOf e' = u ∧ pathEdges.distOf e' = pathEdges.distOf e :=
    forall_pathGrid (by decide)
  have hlen : ∀ u, ∀ e ∈ pathGrid.current u, 0 < pathEdges.distOf e :=
    forall_pathGrid (by decide)
  apply run_emits pathGrid_searchGraph
  · rintro u v l ⟨e, he, rfl, rfl⟩
    exact hback u e he
  · rintro u v l ⟨e, he, rfl, rfl⟩
    exact hlen u e he
  · exact ⟨by decide, rfl, rfl, rfl, rfl, ready_new.heap⟩
  · simp

end CHDijkstra

end SeaRouter
