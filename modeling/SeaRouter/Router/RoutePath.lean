import SeaRouter.Lib.Walk
import SeaRouter.Router.Unpacking

/-!
# The path over the edges of both sides

`Leads H G e u v l` says that the edge `e` of the store stands for a path of
original edges from `u` to `v`, and `Route` is a sequence of such edges.

`calculateRoute` walks the edges of the left side forwards and those of the
right side, which lead from the destination to the hub, backwards.
`finish_spec` says that it returns the path over both.
-/

namespace SeaRouter

open Java WGraph

namespace HubLRouter

variable {H : HubLEdges} {G : Int → Int → Int → Prop}

/-- The edge `e` leads from `u` to `v`, has the length `l`, and unpacks to a path
of that length in the graph `G`. -/
structure Leads (H : HubLEdges) (G : Int → Int → Int → Prop) (e u v l : Int) : Prop where
  dest : H.getDest e = .ok v
  dist : H.getDist e = .ok l
  path : ∃ ls k, Expands H H.getSecondShortcut H.getFirstShortcut e ls k ∧
    IsPath G (u :: ls.map (destOf H)) u v l

/-- The edges `es` unpack one after the other to edges with the destinations `ns`,
within `F` iterations.  They need not be a path. -/
inductive Unpacks (H : HubLEdges) : List Int → List Int → Nat → Prop
  | nil : Unpacks H [] [] 0
  | cons {e : Int} {ls es ns : List Int} {k F : Nat} :
      Expands H H.getSecondShortcut H.getFirstShortcut e ls k → Unpacks H es ns F →
      Unpacks H (e :: es) (ls.map (destOf H) ++ ns) (k + F + 1)

/-- The edges `es` lead one after the other from `u` to `v` over the nodes `ns`;
the total length is `L`, and unpacking takes at most `F` iterations. -/
inductive Route (H : HubLEdges) (G : Int → Int → Int → Prop) :
    List Int → Int → Int → Int → List Int → Nat → Prop
  | nil (u : Int) : Route H G [] u u 0 [] 0
  | cons {e u v w l L : Int} {ls es ns : List Int} {k F : Nat} :
      Expands H H.getSecondShortcut H.getFirstShortcut e ls k →
      IsPath G (u :: ls.map (destOf H)) u v l → Route H G es v w L ns F →
      Route H G (e :: es) u w (l + L) (ls.map (destOf H) ++ ns) (k + F + 1)

theorem Leads.route {e u v w l L : Int} {es ns : List Int} {F : Nat} (h : Leads H G e u v l)
    (hr : Route H G es v w L ns F) : ∃ ns' F', Route H G (e :: es) u w (l + L) ns' F' := by
  obtain ⟨ls, k, hexp, hpath⟩ := h.path
  exact ⟨_, _, Route.cons hexp hpath hr⟩

/-- The nodes of a route are a path in the graph. -/
theorem Route.isPath {es ns : List Int} {u v L : Int} {F : Nat} (h : Route H G es u v L ns F) :
    IsPath G (u :: ns) u v L := by
  induction h with
  | nil u => exact IsPath.nil u
  | @cons e u v w l L ls es ns k F _ hpath _ ih =>
    have hlast := hpath.getLast?_eq
    have hsplit : u :: ls.map (destOf H) = (u :: ls.map (destOf H)).dropLast ++ [v] := by
      rw [List.getLast?_eq_some_iff] at hlast
      obtain ⟨ys, hys⟩ := hlast
      rw [hys, List.dropLast_concat]
    have happ := hpath.append ih
    rw [List.append_cons, ← hsplit] at happ
    exact happ

theorem Route.unpacks {es ns : List Int} {u v L : Int} {F : Nat}
    (h : Route H G es u v L ns F) : Unpacks H es ns F := by
  induction h with
  | nil u => exact Unpacks.nil
  | cons hexp _ _ ih => exact Unpacks.cons hexp ih

theorem Unpacks.length_le {es ns : List Int} {F : Nat} (h : Unpacks H es ns F) :
    es.length ≤ F := by
  induction h with
  | nil => exact le_refl 0
  | cons _ _ ih =>
    rw [List.length_cons]
    omega

/-- Edges that can be unpacked alone can be unpacked one after the other. -/
theorem exists_unpacks {es : List Int}
    (h : ∀ e ∈ es, ∃ ls k, Expands H H.getSecondShortcut H.getFirstShortcut e ls k) :
    ∃ ns F, Unpacks H es ns F := by
  induction es with
  | nil => exact ⟨[], 0, Unpacks.nil⟩
  | cons e es ih =>
    obtain ⟨ls, k, hexp⟩ := h e List.mem_cons_self
    obtain ⟨ns, F, hu⟩ := ih fun e' he' => h e' (List.mem_cons_of_mem e he')
    exact ⟨_, _, Unpacks.cons hexp hu⟩

/-! ## The two loops of `calculateRoute` -/

/-- The four stacks of the router. -/
structure Stacks (r : HubLRouter) (left right result : List Int) : Prop where
  left_ : r.edgesLeft.Holds left
  right_ : r.edgesRight.Holds right
  calc_ : r.edgeCalcStack.Holds []
  result_ : r.resultNodes.Holds result

/-- The edges of the left side, in the order in which they were pushed. -/
theorem Unpacks.left {es ns : List Int} {F : Nat} (h : Unpacks H es ns F)
    (fuel : Nat) {right : List Int} :
    ∀ {r : HubLRouter} {res : List Int}, F ≤ fuel → Stacks r es right res →
      ∃ r', Stacks r' [] right (res ++ ns) ∧
        ∀ m, whileLoop (fun r : HubLRouter => return !r.edgesLeft.isEmpty) (leftStep fuel H)
            (m + es.length) r =
          whileLoop (fun r : HubLRouter => return !r.edgesLeft.isEmpty) (leftStep fuel H) m r' := by
  induction h with
  | nil =>
    intro r res _ hr
    exact ⟨r, by rw [List.append_nil]; exact hr, fun m => rfl⟩
  | @cons e ls es ns k F hexp _ ih =>
    intro r res hF hr
    obtain ⟨left', hpop, hleft'⟩ := IntStack.popFifo_spec hr.left_
    obtain ⟨calc', hpush, hcalc'⟩ := IntStack.push_spec hr.calc_ e
    obtain ⟨calc'', result'', hcalc'', hresult'', hrun⟩ := hexp.unpackLoop hcalc' hr.result_
    have hstep : leftStep fuel H r = .ok { r with
        edgesLeft := left', edgeCalcStack := calc'', resultNodes := result'' } := by
      simp only [leftStep, hpop, ok_bind, hpush, unpackLeft, hrun fuel (by omega)]
      rfl
    obtain ⟨r', hr', hloop⟩ := ih (r := { r with
        edgesLeft := left', edgeCalcStack := calc'', resultNodes := result'' })
      (by omega) ⟨hleft', hr.right_, hcalc'', hresult''⟩
    refine ⟨r', by rw [← List.append_assoc]; exact hr', ?_⟩
    intro m
    have hguard : (return !r.edgesLeft.isEmpty : Run Bool) = .ok true := by
      simp [IntStack.isEmpty_eq hr.left_]
    rw [List.length_cons, ← Nat.add_assoc, whileLoop_of_true
      (c := fun r : HubLRouter => return !r.edgesLeft.isEmpty) hguard hstep, hloop]

/-- The edges of the right side, from the one that was pushed last. -/
theorem Unpacks.right {es ns : List Int} {F : Nat} (h : Unpacks H es ns F)
    (fuel : Nat) {left : List Int} :
    ∀ {r : HubLRouter} {res : List Int} (pre : List Int), F ≤ fuel →
      Stacks r left (pre ++ es) res →
      ∃ r', Stacks r' left pre (res ++ ns.reverse) ∧
        ∀ m, whileLoop (fun r : HubLRouter => return !r.edgesRight.isEmpty) (rightStep fuel H)
            (m + es.length) r =
          whileLoop (fun r : HubLRouter => return !r.edgesRight.isEmpty) (rightStep fuel H) m
            r' := by
  induction h with
  | nil =>
    intro r res pre _ hr
    rw [List.append_nil] at hr
    exact ⟨r, by rw [List.reverse_nil, List.append_nil]; exact hr, fun m => rfl⟩
  | @cons e ls es ns k F hexp _ ih =>
    intro r res pre hF hr
    -- first the edges behind `e`, which were pushed later
    rw [List.append_cons] at hr
    obtain ⟨r₁, hr₁, hloop⟩ := ih (pre ++ [e]) (by omega) hr
    obtain ⟨right', hpop, hright'⟩ := IntStack.pop_spec hr₁.right_
    obtain ⟨calc', hpush, hcalc'⟩ := IntStack.push_spec hr₁.calc_ e
    obtain ⟨calc'', result'', hcalc'', hresult'', hrun⟩ :=
      hexp.reverse.unpackLoop hcalc' hr₁.result_
    have hstep : rightStep fuel H r₁ = .ok { r₁ with
        edgesRight := right', edgeCalcStack := calc'', resultNodes := result'' } := by
      simp only [rightStep, hpop, ok_bind, hpush, unpackRight, hrun fuel (by omega)]
      rfl
    refine ⟨{ r₁ with
        edgesRight := right', edgeCalcStack := calc'', resultNodes := result'' },
      ⟨hr₁.left_, hright', hcalc'', ?_⟩, ?_⟩
    · rw [List.reverse_append, ← List.append_assoc, ← List.map_reverse]
      exact hresult''
    · intro m
      have hguard : (return !r₁.edgesRight.isEmpty : Run Bool) = .ok true := by
        simp [IntStack.isEmpty_eq hr₁.right_]
      have hlen : m + (e :: es).length = m + 1 + es.length := by
        rw [List.length_cons]
        omega
      rw [hlen, hloop, whileLoop_of_true
        (c := fun r : HubLRouter => return !r.edgesRight.isEmpty) hguard hstep]

/-- The nodes of both sides; the hub is taken from the right side, and from the
left side what comes before it. -/
theorem calculateRoute_spec {es es' ns ns' : List Int} (s t : Int) {F F' : Nat}
    (hl : Unpacks H es ns F) (hr : Unpacks H es' ns' F') {r : HubLRouter}
    (hs : Stacks r es es' []) (fuel : Nat) (hF : F ≤ fuel) (hF' : F' ≤ fuel) :
    ∃ r', calculateRoute fuel H r s t = .ok r' ∧
      Stacks r' [] [] ((s :: ns).dropLast ++ (ns'.reverse ++ [t])) := by
  obtain ⟨result₁, hpush₁, hres₁⟩ := IntStack.push_spec hs.result_ s
  obtain ⟨r₂, hs₂, hloop₂⟩ := hl.left fuel hF
    (r := { r with resultNodes := result₁ }) ⟨hs.left_, hs.right_, hs.calc_, hres₁⟩
  have hsplit : [] ++ [s] ++ ns =
      (s :: ns).dropLast ++ [(s :: ns).getLast (List.cons_ne_nil s ns)] := by
    rw [List.dropLast_append_getLast]
    rfl
  have hres₂ := hs₂.result_
  rw [hsplit] at hres₂
  obtain ⟨result₃, hpop₃, hres₃⟩ := IntStack.pop_spec hres₂
  obtain ⟨r₄, hs₄, hloop₄⟩ := hr.right fuel (r := { r₂ with resultNodes := result₃ }) [] hF'
    ⟨hs₂.left_, hs₂.right_, hs₂.calc_, hres₃⟩
  obtain ⟨result₅, hpush₅, hres₅⟩ := IntStack.push_spec hs₄.result_ t
  have hrun₂ : whileLoop (fun r : HubLRouter => return !r.edgesLeft.isEmpty) (leftStep fuel H)
      fuel { r with resultNodes := result₁ } = .ok r₂ := by
    have hlen := hl.length_le
    have := hloop₂ (fuel - es.length)
    rw [Nat.sub_add_cancel (by omega)] at this
    rw [this]
    apply whileLoop_of_false
    simp [IntStack.isEmpty_eq hs₂.left_]
  have hrun₄ : whileLoop (fun r : HubLRouter => return !r.edgesRight.isEmpty) (rightStep fuel H)
      fuel { r₂ with resultNodes := result₃ } = .ok r₄ := by
    have hlen := hr.length_le
    have := hloop₄ (fuel - es'.length)
    rw [Nat.sub_add_cancel (by omega)] at this
    rw [this]
    apply whileLoop_of_false
    simp [IntStack.isEmpty_eq hs₄.right_]
  refine ⟨{ r₄ with resultNodes := result₅ }, ?_, hs₄.left_, hs₄.right_, hs₄.calc_, ?_⟩
  · simp only [calculateRoute, hpush₁, ok_bind, hrun₂, hpop₃, hrun₄, hpush₅]
    rfl
  · rw [← List.append_assoc]
    exact hres₅

/-! ## The result -/

theorem resultPath_loop (fuel : Nat) :
    ∀ {st : IntStack} (done : List Int) {ns : List Int}, st.Holds ns → ns.length ≤ fuel →
      ∃ st', st'.Holds [] ∧ whileLoop (fun s : List Int × IntStack => return !s.2.isEmpty) pathStep
        fuel (done, st) = .ok (done ++ ns, st') := by
  induction fuel with
  | zero =>
    intro st done ns hst hlen
    have hnil : ns = [] := List.eq_nil_of_length_eq_zero (by omega)
    subst hnil
    refine ⟨st, hst, ?_⟩
    rw [List.append_nil]
    apply whileLoop_of_false
    simp [IntStack.isEmpty_eq hst]
  | succ fuel ih =>
    intro st done ns hst hlen
    cases ns with
    | nil =>
      refine ⟨st, hst, ?_⟩
      rw [List.append_nil]
      apply whileLoop_of_false
      simp [IntStack.isEmpty_eq hst]
    | cons x ns =>
      obtain ⟨st₁, hpop, hst₁⟩ := IntStack.popFifo_spec hst
      obtain ⟨st', hst', hrun⟩ := ih (done ++ [x]) hst₁ (by simpa using hlen)
      have hstep : pathStep (done, st) = .ok (done ++ [x], st₁) := by
        simp only [pathStep, hpop, ok_bind]
        rfl
      refine ⟨st', hst', ?_⟩
      rw [whileLoop_of_true (by simp [IntStack.isEmpty_eq hst]) hstep, hrun, List.append_assoc]
      rfl

/-- The end of a request never fails when the edges can be unpacked, and leaves empty
stacks. -/
theorem finish_eq {es es' ns ns' : List Int} (s t : Int) {F F' : Nat} (hl : Unpacks H es ns F)
    (hr : Unpacks H es' ns' F') (d : Int) :
    ∃ B, ∀ r, Stacks r es es' [] → ∀ fuel, B ≤ fuel → ∃ r', Stacks r' [] [] [] ∧
      finish fuel H r s t d =
        .ok (RoutingResult.found ((s :: ns).dropLast ++ (ns'.reverse ++ [t])) d, r') := by
  refine ⟨F + F' + ((s :: ns).dropLast ++ (ns'.reverse ++ [t])).length, ?_⟩
  intro r hs fuel hfuel
  obtain ⟨r₁, hcalc, hs₁⟩ := calculateRoute_spec s t hl hr hs fuel (by omega) (by omega)
  obtain ⟨st', hst', hresult⟩ := resultPath_loop fuel [] hs₁.result_ (by omega)
  refine ⟨{ r₁ with resultNodes := st' }, ⟨hs₁.left_, hs₁.right_, hs₁.calc_, hst'⟩, ?_⟩
  simp only [finish, hcalc, ok_bind, resultPath, hresult, List.nil_append]
  rfl

/-- The path that is returned leads over the edges of both sides. -/
theorem finish_spec (hsymm : ∀ u v l, G u v l → G v u l) {es es' ns ns' : List Int}
    {s t v L L' : Int} {F F' : Nat} (hl : Route H G es s v L ns F) (hr : Route H G es' t v L' ns' F')
    {r : HubLRouter} (hs : Stacks r es es' []) (d : Int) :
    ∃ (B : Nat) (path : List Int), IsPath G path s t (L + L') ∧
      ∀ fuel, B ≤ fuel → ∃ r', finish fuel H r s t d = .ok (RoutingResult.found path d, r') := by
  have hback := hr.isPath.reverse hsymm
  rw [List.reverse_cons] at hback
  obtain ⟨B, hB⟩ := finish_eq s t hl.unpacks hr.unpacks d
  refine ⟨B, _, hl.isPath.append hback, ?_⟩
  intro fuel hfuel
  obtain ⟨r', _, hr'⟩ := hB r hs fuel hfuel
  exact ⟨r', hr'⟩

end HubLRouter

end SeaRouter
