import SeaRouter.HubLabelCreation.CalculateCH
import SeaRouter.Router.HubLRouter

/-!
# Unpacking shortcuts

`calculateRoute` replaces a shortcut on the stack by its two parts until only
original edges are left.  `Expands` is the tree of these replacements, with the
original edges at its leaves and the number of iterations that it takes;
`Expands.run` says that the loop walks it.

In every state that `calculateCH` reaches, the parts of a shortcut have smaller
ids, so each edge has such a tree, and the leaves are a chain of original edges
from its start to its destination (`reached_unpack`).
-/

namespace SeaRouter

open Java WGraph

namespace HubLRouter

/-- The edge `e` is replaced by the original edges `l` within `k` iterations, when
of the two parts of a shortcut `a` is pushed first and `b` is taken first. -/
inductive Expands (H : HubLEdges) (a b : Int → Run Int) : Int → List Int → Nat → Prop
  | original {e v : Int} : H.isShortcut e = false → H.getDest e = .ok v → Expands H a b e [e] 1
  | shortcut {e p q : Int} {l l' : List Int} {k k' : Nat} : H.isShortcut e = true →
      a e = .ok p → b e = .ok q → Expands H a b q l k → Expands H a b p l' k' →
      Expands H a b e (l ++ l') (k + k' + 1)

/-- The destination of an edge of the store. -/
def destOf (H : HubLEdges) (e : Int) : Int := Edges.valueOf (H.getDest e)

variable {H : HubLEdges} {a b : Int → Run Int}

/-- Taking the other part first gives the same edges backwards. -/
theorem Expands.reverse {e : Int} {l : List Int} {k : Nat} (h : Expands H a b e l k) :
    Expands H b a e l.reverse k := by
  induction h with
  | original ho hd => exact Expands.original ho hd
  | @shortcut e p q l l' k k' hs hp hq _ _ ihq ihp =>
    rw [List.reverse_append, Nat.add_comm k k']
    exact Expands.shortcut hs hq hp ihp ihq

/-- The guard of the inner loops. -/
theorem isEmpty_guard {calc_ : IntStack} {xs : List Int} {e : Int}
    (h : calc_.Holds (xs ++ [e])) : calc_.isEmpty = false := by
  rw [IntStack.isEmpty_eq h]
  simp

/-- The loop takes an edge from the stack and pushes the destinations of the
edges it expands to. -/
theorem Expands.run {e : Int} {l : List Int} {k : Nat} (h : Expands H a b e l k) :
    ∀ {calc_ result : IntStack} {xs ns : List Int}, calc_.Holds (xs ++ [e]) → result.Holds ns →
      ∃ calc' result', calc'.Holds xs ∧ result'.Holds (ns ++ l.map (destOf H)) ∧
        ∀ fuel, unpackLoop (fuel + k) H a b calc_ result = unpackLoop fuel H a b calc' result' := by
  induction h with
  | @original e v ho hd =>
    intro calc_ result xs ns hc hr
    obtain ⟨calc', hpop, hc'⟩ := IntStack.pop_spec hc
    obtain ⟨result', hpush, hr'⟩ := IntStack.push_spec hr v
    have hdest : destOf H e = v := by
      rw [destOf, hd]
      rfl
    have hstep : unpackStep H a b (calc_, result) = .ok (calc', result') := by
      simp only [unpackStep, hpop, ok_bind, ho, hd, hpush]
      rfl
    refine ⟨calc', result', hc', ?_, ?_⟩
    · rw [List.map_singleton, hdest]
      exact hr'
    · intro fuel
      exact whileLoop_of_true (by simp [isEmpty_guard hc]) hstep fuel
  | @shortcut e p q l l' k k' hs hp hq _ _ ihq ihp =>
    intro calc_ result xs ns hc hr
    obtain ⟨calc₁, hpop, hc₁⟩ := IntStack.pop_spec hc
    obtain ⟨calc₂, hpush₂, hc₂⟩ := IntStack.push_spec hc₁ p
    obtain ⟨calc₃, hpush₃, hc₃⟩ := IntStack.push_spec hc₂ q
    have hstep : unpackStep H a b (calc_, result) = .ok (calc₃, result) := by
      simp only [unpackStep, hpop, ok_bind, hs, if_true, hp, hq, hpush₂, hpush₃]
      rfl
    -- first the part that was pushed last, then the one below it
    obtain ⟨calc₄, result₄, hc₄, hr₄, hrun₄⟩ := ihq hc₃ hr
    obtain ⟨calc₅, result₅, hc₅, hr₅, hrun₅⟩ := ihp hc₄ hr₄
    refine ⟨calc₅, result₅, hc₅, ?_, ?_⟩
    · rw [List.map_append, ← List.append_assoc]
      exact hr₅
    · intro fuel
      have hfuel : fuel + (k + k' + 1) = fuel + k' + k + 1 := by omega
      calc unpackLoop (fuel + (k + k' + 1)) H a b calc_ result
          = unpackLoop (fuel + k' + k) H a b calc₃ result := by
            rw [hfuel]
            exact whileLoop_of_true (by simp [isEmpty_guard hc]) hstep _
        _ = unpackLoop (fuel + k') H a b calc₄ result₄ := hrun₄ _
        _ = unpackLoop fuel H a b calc₅ result₅ := hrun₅ _

/-- With one edge on the stack, the whole loop. -/
theorem Expands.unpackLoop {e : Int} {l : List Int} {k : Nat} (h : Expands H a b e l k)
    {calc_ result : IntStack} {ns : List Int} (hc : calc_.Holds [e]) (hr : result.Holds ns) :
    ∃ calc' result', calc'.Holds [] ∧ result'.Holds (ns ++ l.map (destOf H)) ∧
      ∀ fuel, k ≤ fuel → unpackLoop fuel H a b calc_ result = .ok (calc', result') := by
  obtain ⟨calc', result', hc', hr', hrun⟩ := h.run (show calc_.Holds ([] ++ [e]) from hc) hr
  refine ⟨calc', result', hc', hr', ?_⟩
  intro fuel hfuel
  obtain ⟨rest, rfl⟩ : ∃ rest, fuel = rest + k := ⟨fuel - k, by omega⟩
  rw [hrun, HubLRouter.unpackLoop]
  apply whileLoop_of_false
  simp [IntStack.isEmpty_eq hc']

end HubLRouter

/-! ## The edges of a hierarchy -/

namespace Edges

/-- The original edges `l` lead one after the other from `u` to `v` and have the
total length `d`. -/
inductive IsChain (E : Edges) : List Int → Int → Int → Int → Prop
  | nil (u : Int) : IsChain E [] u u 0
  | cons {e v d : Int} {l : List Int} : 0 ≤ e → e < E.numOfOriginalEdges →
      IsChain E l (E.destOf e) v d → IsChain E (e :: l) (E.startOf e) v (E.distOf e + d)

theorem IsChain.append {E : Edges} {l l' : List Int} {u v w d d' : Int} (h : IsChain E l u v d)
    (h' : IsChain E l' v w d') : IsChain E (l ++ l') u w (d + d') := by
  induction h with
  | nil u =>
    rw [zero_add]
    exact h'
  | cons h0 h1 _ ih =>
    rw [add_assoc]
    exact IsChain.cons h0 h1 (ih h')

theorem IsChain.original {E : Edges} {l : List Int} {u v d : Int} (h : IsChain E l u v d) :
    ∀ e ∈ l, 0 ≤ e ∧ e < E.numOfOriginalEdges := by
  induction h with
  | nil u =>
    intro e he
    simp at he
  | cons h0 h1 _ ih =>
    intro x hx
    rcases List.mem_cons.mp hx with rfl | hx
    · exact ⟨h0, h1⟩
    · exact ih x hx

end Edges

namespace LabelCreator

open HubLRouter

variable {I : InputGraph} {n : Nat} {calcOrder : List Int} {s : LabelCreator} {lvl : Int}
  {H : HubLEdges}

/-- The parts of a shortcut, as the store returns them. -/
theorem IsSum.getParts {e p q : Int} (h : IsSum s e p q) (hH : HubLEdges.Copies s.edges H)
    (h0 : s.edges.numOfOriginalEdges ≤ e) (h1 : e < s.edges.nextShortcutId) :
    H.isShortcut e = true ∧ H.getSecondShortcut e = .ok p ∧ H.getFirstShortcut e = .ok q := by
  obtain ⟨hp, hq⟩ := hH.parts e p q h0 h1 h.parts
  refine ⟨?_, hp, hq⟩
  rw [HubLEdges.isShortcut, hH.firstShortcut]
  exact decide_eq_true h0

/-- Every edge expands to a chain of original edges. -/
theorem exists_expands (hv : s.edges.Valid) (hH : HubLEdges.Copies s.edges H)
    (hparts : ∀ e, s.edges.numOfOriginalEdges ≤ e → e < s.edges.nextShortcutId →
      ∃ p q, IsSum s e p q) :
    ∀ (m : Nat) (e : Int), e.toNat = m → s.edges.IsId e →
      ∃ l k, Expands H H.getSecondShortcut H.getFirstShortcut e l k ∧
        s.edges.IsChain l (s.edges.startOf e) (s.edges.destOf e) (s.edges.distOf e) := by
  intro m
  -- the parts of a shortcut have smaller ids
  induction m using Nat.strong_induction_on with
  | _ m ih =>
    intro e hm hid
    by_cases he : e < s.edges.numOfOriginalEdges
    · have hdest : H.getDest e = .ok (s.edges.destOf e) := by
        rw [hH.dest e hid]
        exact (hv.isEdge hid).dest
      refine ⟨[e], 1, Expands.original ?_ hdest, ?_⟩
      · rw [HubLEdges.isShortcut, hH.firstShortcut]
        exact decide_eq_false (by omega)
      · have := Edges.IsChain.cons hid.1 he (Edges.IsChain.nil (s.edges.destOf e))
        rwa [add_zero] at this
    · obtain ⟨p, q, hsum⟩ := hparts e (by omega) hid.2
      obtain ⟨hs, hp, hq⟩ := hsum.getParts hH (by omega) hid.2
      have hlt := hid.2
      have hp0 := hsum.second
      have hq0 := hsum.first
      obtain ⟨l, k, hl, hchain⟩ := ih q.toNat (by omega) q rfl ⟨hq0.1, by omega⟩
      obtain ⟨l', k', hl', hchain'⟩ := ih p.toNat (by omega) p rfl ⟨hp0.1, by omega⟩
      refine ⟨l ++ l', k + k' + 1, Expands.shortcut hs hp hq hl hl', ?_⟩
      rw [hsum.start, hsum.middle] at hchain
      rw [hsum.dest] at hchain'
      rw [hsum.dist]
      exact hchain.append hchain'

/-- The parts of the shortcuts, in every state between two levels and in the
store that is made of it, and what the loop of `calculateRoute` does with any
edge: it ends, and pushes the destinations of a chain of original edges, forwards
on the left side and backwards on the right side. -/
theorem reached_unpack (hI : I.Undirected n) (hpos : I.Positive)
    (horder : ∀ u : Int, u ∈ calcOrder ↔ 0 ≤ u ∧ u < n)
    (hr : Reached (fun _ _ => True) I n calcOrder s lvl) :
    ∃ H, HubLEdges.initializeFrom s.edges = .ok H ∧
      (∀ e, s.edges.numOfOriginalEdges ≤ e → e < s.edges.nextShortcutId →
        ∃ p q, (H.getFirstShortcut e = .ok q ∧ H.getSecondShortcut e = .ok p) ∧
          IsSum s e p q) ∧
      ∀ e, 0 ≤ e → e < s.edges.nextShortcutId → ∃ l k,
        s.edges.IsChain l (s.edges.startOf e) (s.edges.destOf e) (s.edges.distOf e) ∧
        ∀ calc_ result ns, IntStack.Holds calc_ [e] → IntStack.Holds result ns →
          (∃ calc' result', IntStack.Holds calc' [] ∧
            IntStack.Holds result' (ns ++ l.map s.edges.destOf) ∧
            ∀ fuel, k ≤ fuel → unpackLeft fuel H calc_ result = .ok (calc', result')) ∧
          ∃ calc' result', IntStack.Holds calc' [] ∧
            IntStack.Holds result' (ns ++ l.reverse.map s.edges.destOf) ∧
            ∀ fuel, k ≤ fuel → unpackRight fuel H calc_ result = .ok (calc', result') := by
  obtain ⟨K, h⟩ := hr.hierarchy hI hpos horder
  have hv := h.consistent.valid
  obtain ⟨H, hH, hcopies⟩ := HubLEdges.initializeFrom_spec hv
  refine ⟨H, hH, ?_, ?_⟩
  · intro e h0 h1
    obtain ⟨p, q, hsum⟩ := h.parts e h0 h1
    obtain ⟨_, hp, hq⟩ := hsum.getParts hcopies h0 h1
    exact ⟨p, q, ⟨hq, hp⟩, hsum⟩
  · intro e h0 h1
    obtain ⟨l, k, hexp, hchain⟩ := exists_expands hv hcopies h.parts e.toNat e rfl ⟨h0, h1⟩
    have hdest : ∀ x ∈ l, destOf H x = s.edges.destOf x := by
      intro x hx
      obtain ⟨hx0, hx1⟩ := hchain.original x hx
      rw [destOf, hcopies.dest x ⟨hx0, lt_of_lt_of_le hx1 hv.orig_le_next⟩]
      rfl
    have hmap : l.map (destOf H) = l.map s.edges.destOf := List.map_congr_left hdest
    have hmap' : l.reverse.map (destOf H) = l.reverse.map s.edges.destOf := by
      rw [List.map_reverse, List.map_reverse, hmap]
    refine ⟨l, k, hchain, ?_⟩
    intro calc_ result ns hc hres
    rw [← hmap, ← hmap']
    exact ⟨hexp.unpackLoop hc hres, hexp.reverse.unpackLoop hc hres⟩

/-- The shortcut of the triangle after its first level. -/
theorem reached_unpack_detour :
    ∃ s H, calcNextLvl 0 (start detour.edges detour.grid 3 [1, 0, 2]) = .ok s ∧
      s.edges.nextShortcutId = 8 ∧ HubLEdges.initializeFrom s.edges = .ok H ∧
      ∃ p q, (H.getFirstShortcut 6 = .ok q ∧ H.getSecondShortcut 6 = .ok p) ∧ IsSum s 6 p q := by
  obtain ⟨s, hs, hnext⟩ := exists_of_map_toOption
    (x := calcNextLvl 0 (start detour.edges detour.grid 3 [1, 0, 2]))
    (p := fun s => s.edges.numOfOriginalEdges == 6 && s.edges.nextShortcutId == 8)
    (by decide +kernel)
  simp only [Bool.and_eq_true, beq_iff_eq] at hnext
  obtain ⟨H, hH, hparts, _⟩ := reached_unpack detour_checked.undirected detour_positive
    mem_detourOrder (Reached.level Reached.start trivial (by decide) hs)
  exact ⟨s, H, hs, hnext.2, hH, hparts 6 (by omega) (by omega)⟩

end LabelCreator

end SeaRouter
