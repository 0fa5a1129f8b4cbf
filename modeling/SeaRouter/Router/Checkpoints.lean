import SeaRouter.Router.Preprocessing

/-!
# The files of `LabelCreator.main`

The preprocessing of a large grid takes long, so `main` stores the results of its steps
(`CHData`, `TmpLabelData`), and a later run reads them instead of calculating them again.
A run may be stopped at any time, also while it writes a file; what it leaves then is a
file that cannot be read, and `readData()` ends the program.

`run_recovers`: however many runs were stopped, and whichever files somebody deleted, the
data that is stored for the router is what one undisturbed run calculates, and the next
undisturbed run ends with this data if and only if no half-written file is in its way.

The file with the grid stays as it is, and so do the random numbers, whose seed is fixed.
-/

namespace SeaRouter

open Java

namespace LabelCreator

variable {δ α : Type}

/-! ## The model -/

/-- A file that is written with `storeData()`. -/
inductive DataFile (α : Type)
  | missing
  /-- Somebody stopped the run that wrote the file. -/
  | torn
  | stored (data : α)
deriving DecidableEq

/-- The files of the preprocessing. -/
structure Files (δ : Type) where
  chData : DataFile (CHData δ)
  tmpLabelData : DataFile Labels
  hubLabelData : DataFile (Node δ × HubLEdges × HubLNodes)

/-- How far a run of `main` is. -/
inductive Progress (δ : Type)
  | start
  | storingCH (data : CHData δ)
  /-- "step 1 complete" -/
  | step1Complete (data : CHData δ)
  | storingLabels (data : CHData δ) (L : Labels)
  /-- "step 2 complete" -/
  | step2Complete (data : CHData δ) (L : Labels)
  | storingHubL (data : Node δ × HubLEdges × HubLNodes)
  | finished
  /-- After `System.exit(-1)` or an exception. -/
  | exited

structure Machine (δ : Type) where
  files : Files δ
  progress : Progress δ

/-- No run has begun. -/
def Machine.new : Machine δ where
  files := { chData := .missing, tmpLabelData := .missing, hubLabelData := .missing }
  progress := .start

section

variable (parseDouble : List Char → Run δ) (entryOrder : List Int → List Int) (rnd : Nat → Nat)
  (text : List Char)

/-- What `main` does up to the next moment in which its files differ. -/
def mainStep (m : Machine δ) : Machine δ :=
  match m.progress with
  | .start =>
    match m.files.chData with
    | .stored data => { m with progress := .step1Complete data }
    | .torn => { m with progress := .exited }
    | .missing =>
      match step1 parseDouble entryOrder rnd text with
      | .ok data => { files := { m.files with chData := .torn }, progress := .storingCH data }
      | .error _ => { m with progress := .exited }
  | .storingCH data =>
    { files := { m.files with chData := .stored data }, progress := .step1Complete data }
  | .step1Complete data =>
    match m.files.tmpLabelData with
    | .stored L => { m with progress := .step2Complete data L }
    | .torn => { m with progress := .exited }
    | .missing =>
      match step2 data with
      | .ok L =>
        { files := { m.files with tmpLabelData := .torn }, progress := .storingLabels data L }
      | .error _ => { m with progress := .exited }
  | .storingLabels data L =>
    { files := { m.files with tmpLabelData := .stored L }, progress := .step2Complete data L }
  | .step2Complete data L =>
    match step3 data L with
    | .ok (H, N) =>
      { files := { m.files with hubLabelData := .torn }, progress := .storingHubL (data.nodes, H, N) }
    | .error _ => { m with progress := .exited }
  | .storingHubL data =>
    { files := { m.files with hubLabelData := .stored data }, progress := .finished }
  | .finished => m
  | .exited => m

/-- What may happen on the machine. -/
inductive Event
  | step
  /-- The run is stopped, if there is one, and the next one begins. -/
  | restart
  | deleteCHData
  | deleteTmpLabelData
  | deleteHubLabelData
deriving DecidableEq, Repr

def Machine.next (m : Machine δ) : Event → Machine δ
  | .step => mainStep parseDouble entryOrder rnd text m
  | .restart => { m with progress := .start }
  | .deleteCHData => { m with files := { m.files with chData := .missing } }
  | .deleteTmpLabelData => { m with files := { m.files with tmpLabelData := .missing } }
  | .deleteHubLabelData => { m with files := { m.files with hubLabelData := .missing } }

/-- The machine after some events. -/
def Machine.after (events : List Event) : Machine δ :=
  events.foldl (Machine.next parseDouble entryOrder rnd text) Machine.new

/-! ## What the files hold -/

/-- The results of the first two steps. -/
def Calculated (data : CHData δ) (L : Labels) : Prop :=
  step1 parseDouble entryOrder rnd text = .ok data ∧ step2 data = .ok L

/-- What the run knows is right. -/
def Progress.Sound : Progress δ → Prop
  | .storingCH data => step1 parseDouble entryOrder rnd text = .ok data
  | .step1Complete data => step1 parseDouble entryOrder rnd text = .ok data
  | .storingLabels data L => Calculated parseDouble entryOrder rnd text data L
  | .step2Complete data L => Calculated parseDouble entryOrder rnd text data L
  | .storingHubL data => main parseDouble entryOrder rnd text = .ok data
  | _ => True

/-- What the files hold is right. -/
structure Machine.Sound (m : Machine δ) : Prop where
  chData : ∀ data, m.files.chData = .stored data →
    step1 parseDouble entryOrder rnd text = .ok data
  tmpLabelData : ∀ L, m.files.tmpLabelData = .stored L →
    ∃ data, Calculated parseDouble entryOrder rnd text data L
  hubLabelData : ∀ data, m.files.hubLabelData = .stored data →
    main parseDouble entryOrder rnd text = .ok data
  progress : m.progress.Sound parseDouble entryOrder rnd text

end

variable {parseDouble : List Char → Run δ} {entryOrder : List Int → List Int} {rnd : Nat → Nat}
  {text : List Char}

theorem Calculated.main_eq {data : CHData δ} {L : Labels}
    (h : Calculated parseDouble entryOrder rnd text data L) :
    main parseDouble entryOrder rnd text =
      (step3 data L).map fun x => (data.nodes, x.1, x.2) := by
  rw [main, h.1, ok_bind, h.2, ok_bind]
  cases step3 data L <;> rfl

theorem Machine.sound_new : (Machine.new : Machine δ).Sound parseDouble entryOrder rnd text := by
  refine ⟨?_, ?_, ?_, trivial⟩
  · intro data h
    cases h
  · intro L h
    cases h
  · intro data h
    cases h

/-- The run takes notice of something right. -/
theorem Machine.Sound.goto {m : Machine δ} (h : m.Sound parseDouble entryOrder rnd text)
    {progress : Progress δ} (hp : progress.Sound parseDouble entryOrder rnd text) :
    ({ m with progress := progress } : Machine δ).Sound parseDouble entryOrder rnd text :=
  ⟨h.chData, h.tmpLabelData, h.hubLabelData, hp⟩

theorem Machine.Sound.withCHData {m : Machine δ} (h : m.Sound parseDouble entryOrder rnd text)
    {file : DataFile (CHData δ)}
    (hfile : ∀ data, file = .stored data → step1 parseDouble entryOrder rnd text = .ok data)
    {progress : Progress δ} (hp : progress.Sound parseDouble entryOrder rnd text) :
    ({ files := { m.files with chData := file }, progress := progress } : Machine δ).Sound
      parseDouble entryOrder rnd text :=
  ⟨hfile, h.tmpLabelData, h.hubLabelData, hp⟩

theorem Machine.Sound.withTmpLabelData {m : Machine δ}
    (h : m.Sound parseDouble entryOrder rnd text) {file : DataFile Labels}
    (hfile : ∀ L, file = .stored L → ∃ data, Calculated parseDouble entryOrder rnd text data L)
    {progress : Progress δ} (hp : progress.Sound parseDouble entryOrder rnd text) :
    ({ files := { m.files with tmpLabelData := file }, progress := progress } : Machine δ).Sound
      parseDouble entryOrder rnd text :=
  ⟨h.chData, hfile, h.hubLabelData, hp⟩

theorem Machine.Sound.withHubLabelData {m : Machine δ}
    (h : m.Sound parseDouble entryOrder rnd text)
    {file : DataFile (Node δ × HubLEdges × HubLNodes)}
    (hfile : ∀ data, file = .stored data → main parseDouble entryOrder rnd text = .ok data)
    {progress : Progress δ} (hp : progress.Sound parseDouble entryOrder rnd text) :
    ({ files := { m.files with hubLabelData := file }, progress := progress } : Machine δ).Sound
      parseDouble entryOrder rnd text :=
  ⟨h.chData, h.tmpLabelData, hfile, hp⟩

/-- The labels of the file belong to the contraction that the run has. -/
theorem Machine.Sound.calculated {m : Machine δ} (h : m.Sound parseDouble entryOrder rnd text)
    {data : CHData δ} (hdata : step1 parseDouble entryOrder rnd text = .ok data) {L : Labels}
    (hfile : m.files.tmpLabelData = .stored L) :
    Calculated parseDouble entryOrder rnd text data L := by
  obtain ⟨data', hdata', hL⟩ := h.tmpLabelData L hfile
  obtain rfl := Except.ok.inj (hdata.symm.trans hdata')
  exact ⟨hdata, hL⟩

/-- A file that a run has just begun to write holds nothing. -/
theorem torn_ne {P : Prop} {a : α} (h : (DataFile.torn : DataFile α) = .stored a) : P := by
  cases h

theorem eq_of_stored {a b : α} (h : DataFile.stored a = .stored b) : b = a :=
  (DataFile.stored.inj h).symm

/-- The cases are how far the run is and, where it looks, what the file holds. -/
theorem mainStep_sound {m : Machine δ} (h : m.Sound parseDouble entryOrder rnd text) :
    (mainStep parseDouble entryOrder rnd text m).Sound parseDouble entryOrder rnd text := by
  have hp := h.progress
  unfold mainStep
  cases hprogress : m.progress with
  | start =>
    cases hfile : m.files.chData with
    | stored data => exact h.goto (h.chData data hfile)
    | torn => exact h.goto trivial
    | missing =>
      cases hrun : step1 parseDouble entryOrder rnd text with
      | ok data => exact h.withCHData (fun _ => torn_ne) hrun
      | error e => exact h.goto trivial
  | storingCH data =>
    rw [hprogress] at hp
    have hfile : ∀ data', DataFile.stored data = .stored data' →
        step1 parseDouble entryOrder rnd text = .ok data' := by
      intro data' heq
      rw [eq_of_stored heq]
      exact hp
    exact h.withCHData hfile hp
  | step1Complete data =>
    rw [hprogress] at hp
    cases hfile : m.files.tmpLabelData with
    | stored L => exact h.goto (h.calculated hp hfile)
    | torn => exact h.goto trivial
    | missing =>
      cases hrun : step2 data with
      | ok L =>
        simp only [hrun]
        have hboth : Calculated parseDouble entryOrder rnd text data L := ⟨hp, hrun⟩
        exact h.withTmpLabelData (fun _ => torn_ne) hboth
      | error e =>
        simp only [hrun]
        exact h.goto trivial
  | storingLabels data L =>
    rw [hprogress] at hp
    have hfile : ∀ L', DataFile.stored L = .stored L' →
        ∃ data, Calculated parseDouble entryOrder rnd text data L' := by
      intro L' heq
      rw [eq_of_stored heq]
      exact ⟨data, hp⟩
    exact h.withTmpLabelData hfile hp
  | step2Complete data L =>
    rw [hprogress] at hp
    cases hrun : step3 data L with
    | ok x =>
      simp only [hrun]
      have hmain : main parseDouble entryOrder rnd text = .ok (data.nodes, x.1, x.2) := by
        rw [Calculated.main_eq hp, hrun]
        rfl
      exact h.withHubLabelData (fun _ => torn_ne) hmain
    | error e =>
      simp only [hrun]
      exact h.goto trivial
  | storingHubL data =>
    rw [hprogress] at hp
    have hfile : ∀ data', DataFile.stored data = .stored data' →
        main parseDouble entryOrder rnd text = .ok data' := by
      intro data' heq
      rw [eq_of_stored heq]
      exact hp
    exact h.withHubLabelData hfile trivial
  | finished => exact h
  | exited => exact h

theorem next_sound {m : Machine δ} (h : m.Sound parseDouble entryOrder rnd text) (event : Event) :
    (m.next parseDouble entryOrder rnd text event).Sound parseDouble entryOrder rnd text := by
  cases event with
  | step => exact mainStep_sound h
  | restart => exact h.goto trivial
  | deleteCHData => exact h.withCHData (by intro data heq; cases heq) h.progress
  | deleteTmpLabelData => exact h.withTmpLabelData (by intro L heq; cases heq) h.progress
  | deleteHubLabelData => exact h.withHubLabelData (by intro data heq; cases heq) h.progress

/-- Whatever happens, no file holds anything wrong. -/
theorem after_sound (parseDouble : List Char → Run δ) (entryOrder : List Int → List Int)
    (rnd : Nat → Nat) (text : List Char) (events : List Event) :
    (Machine.after parseDouble entryOrder rnd text events).Sound parseDouble entryOrder rnd text := by
  induction events using List.reverseRecOn with
  | nil => exact Machine.sound_new
  | append_singleton events event ih =>
    rw [Machine.after, List.foldl_append]
    exact next_sound ih event

/-! ## A run that nobody stops -/

/-- Some steps of one run. -/
def mainSteps (parseDouble : List Char → Run δ) (entryOrder : List Int → List Int)
    (rnd : Nat → Nat) (text : List Char) (count : Nat) (m : Machine δ) : Machine δ :=
  (mainStep parseDouble entryOrder rnd text)^[count] m

theorem mainSteps_add (a b : Nat) (m : Machine δ) :
    mainSteps parseDouble entryOrder rnd text (a + b) m =
      mainSteps parseDouble entryOrder rnd text b
        (mainSteps parseDouble entryOrder rnd text a m) := by
  rw [mainSteps, Nat.add_comm, Function.iterate_add_apply]
  rfl

/-- A run that has ended stays where it is. -/
theorem mainSteps_ended (count : Nat) {m : Machine δ}
    (h : m.progress = .finished ∨ m.progress = .exited) :
    mainSteps parseDouble entryOrder rnd text count m = m := by
  have hstep : mainStep parseDouble entryOrder rnd text m = m := by
    unfold mainStep
    rcases h with h | h
    · rw [h]
    · rw [h]
  induction count with
  | zero => rfl
  | succ count ih =>
    rw [mainSteps, Function.iterate_succ_apply, hstep]
    exact ih

theorem after_append_steps (events : List Event) (count : Nat) :
    Machine.after parseDouble entryOrder rnd text
        (events ++ .restart :: List.replicate count .step) =
      mainSteps parseDouble entryOrder rnd text count
        ((Machine.after parseDouble entryOrder rnd text events).next parseDouble entryOrder rnd text
          .restart) := by
  have hsteps : ∀ m : Machine δ,
      (List.replicate count Event.step).foldl (Machine.next parseDouble entryOrder rnd text) m =
        mainSteps parseDouble entryOrder rnd text count m := by
    induction count with
    | zero =>
      intro m
      rfl
    | succ count ih =>
      intro m
      rw [List.replicate_succ, List.foldl_cons, ih, mainSteps, mainSteps,
        Function.iterate_succ_apply]
      rfl
  rw [Machine.after, List.foldl_append, List.foldl_cons, hsteps]
  rfl

theorem mainSteps_sound {m : Machine δ} (h : m.Sound parseDouble entryOrder rnd text)
    (count : Nat) :
    (mainSteps parseDouble entryOrder rnd text count m).Sound parseDouble entryOrder rnd text := by
  induction count generalizing m with
  | zero => exact h
  | succ count ih => exact ih (mainStep_sound h)

/-- Step 1 reads the file or writes it. -/
theorem mainSteps_step1 {m : Machine δ} (h : m.Sound parseDouble entryOrder rnd text)
    (hstart : m.progress = .start) (hready : m.files.chData ≠ .torn) {data : CHData δ}
    (hdata : step1 parseDouble entryOrder rnd text = .ok data) :
    ∃ count, count ≤ 2 ∧ mainSteps parseDouble entryOrder rnd text count m =
      { files := { m.files with chData := .stored data }, progress := .step1Complete data } := by
  cases hfile : m.files.chData with
  | torn => exact absurd hfile hready
  | stored data' =>
    obtain rfl : data' = data := Except.ok.inj ((h.chData data' hfile).symm.trans hdata)
    refine ⟨1, by omega, ?_⟩
    show mainStep parseDouble entryOrder rnd text m = _
    simp only [mainStep, hstart, hfile]
    rw [← hfile]
  | missing =>
    refine ⟨2, by omega, ?_⟩
    show mainStep parseDouble entryOrder rnd text (mainStep parseDouble entryOrder rnd text m) = _
    simp only [mainStep, hstart, hfile, hdata]

theorem mainSteps_step2 {m : Machine δ} (h : m.Sound parseDouble entryOrder rnd text)
    {data : CHData δ} {L : Labels} (hat : m.progress = .step1Complete data)
    (hready : m.files.tmpLabelData ≠ .torn)
    (hboth : Calculated parseDouble entryOrder rnd text data L) :
    ∃ count, count ≤ 2 ∧ mainSteps parseDouble entryOrder rnd text count m =
      { files := { m.files with tmpLabelData := .stored L }, progress := .step2Complete data L } := by
  cases hfile : m.files.tmpLabelData with
  | torn => exact absurd hfile hready
  | stored L' =>
    obtain rfl : L' = L := Except.ok.inj ((h.calculated hboth.1 hfile).2.symm.trans hboth.2)
    refine ⟨1, by omega, ?_⟩
    show mainStep parseDouble entryOrder rnd text m = _
    simp only [mainStep, hat, hfile]
    rw [← hfile]
  | missing =>
    refine ⟨2, by omega, ?_⟩
    show mainStep parseDouble entryOrder rnd text (mainStep parseDouble entryOrder rnd text m) = _
    simp only [mainStep, hat, hfile, hboth.2]

theorem mainSteps_step3 {m : Machine δ} {data : CHData δ} {L : Labels}
    (hat : m.progress = .step2Complete data L)
    (hboth : Calculated parseDouble entryOrder rnd text data L) {x : Node δ × HubLEdges × HubLNodes}
    (hmain : main parseDouble entryOrder rnd text = .ok x) :
    mainSteps parseDouble entryOrder rnd text 2 m =
      { files := { m.files with hubLabelData := .stored x }, progress := .finished } := by
  rw [Calculated.main_eq hboth] at hmain
  cases hrun : step3 data L with
  | error e =>
    rw [hrun] at hmain
    cases hmain
  | ok y =>
    rw [hrun] at hmain
    obtain rfl := Except.ok.inj hmain
    show mainStep parseDouble entryOrder rnd text (mainStep parseDouble entryOrder rnd text m) = _
    simp only [mainStep, hat, hrun]

/-- No file that `main` reads is torn. -/
def Files.Readable (files : Files δ) : Prop := files.chData ≠ .torn ∧ files.tmpLabelData ≠ .torn

/-- The results of the steps of a run that `main` stands for. -/
theorem exists_calculated {x : Node δ × HubLEdges × HubLNodes}
    (hmain : main parseDouble entryOrder rnd text = .ok x) :
    ∃ data L, Calculated parseDouble entryOrder rnd text data L := by
  rw [main, bind_eq_ok] at hmain
  obtain ⟨data, hdata, hrest⟩ := hmain
  rw [bind_eq_ok] at hrest
  obtain ⟨L, hL, _⟩ := hrest
  exact ⟨data, L, hdata, hL⟩

/-- Six steps are enough for one run. -/
theorem mainSteps_of_readable {m : Machine δ} (h : m.Sound parseDouble entryOrder rnd text)
    (hstart : m.progress = .start) (hready : m.files.Readable)
    {x : Node δ × HubLEdges × HubLNodes} (hmain : main parseDouble entryOrder rnd text = .ok x) :
    (mainSteps parseDouble entryOrder rnd text 6 m).progress = .finished ∧
      (mainSteps parseDouble entryOrder rnd text 6 m).files.hubLabelData = .stored x := by
  obtain ⟨data, L, hboth⟩ := exists_calculated hmain
  obtain ⟨a, ha, hstep1⟩ := mainSteps_step1 h hstart hready.1 hboth.1
  have h₁ := mainSteps_sound h a
  rw [hstep1] at h₁
  obtain ⟨b, hb, hstep2⟩ := mainSteps_step2 h₁ rfl hready.2 hboth
  have hcount : 6 = a + (b + (2 + (4 - a - b))) := by omega
  rw [hcount, mainSteps_add, hstep1, mainSteps_add, hstep2, mainSteps_add,
    mainSteps_step3 rfl hboth hmain, mainSteps_ended _ (Or.inl rfl)]
  exact ⟨rfl, rfl⟩

/-- A step that exits is the last one. -/
theorem mainSteps_exits {m : Machine δ}
    (h : (mainStep parseDouble entryOrder rnd text m).progress = .exited) (count : Nat) :
    (mainSteps parseDouble entryOrder rnd text (count + 1) m).progress = .exited := by
  rw [Nat.add_comm, mainSteps_add]
  show (mainSteps parseDouble entryOrder rnd text count
    (mainStep parseDouble entryOrder rnd text m)).progress = _
  rw [mainSteps_ended count (Or.inr h)]
  exact h

theorem mainSteps_of_torn {m : Machine δ} (h : m.Sound parseDouble entryOrder rnd text)
    (hstart : m.progress = .start) (htorn : ¬ m.files.Readable)
    {x : Node δ × HubLEdges × HubLNodes} (hmain : main parseDouble entryOrder rnd text = .ok x) :
    (mainSteps parseDouble entryOrder rnd text 6 m).progress = .exited := by
  by_cases hch : m.files.chData = .torn
  · apply mainSteps_exits
    simp only [mainStep, hstart, hch]
  · have hlabels : m.files.tmpLabelData = .torn := by
      by_contra hne
      exact htorn ⟨hch, hne⟩
    obtain ⟨data, L, hboth⟩ := exists_calculated hmain
    obtain ⟨a, ha, hstep1⟩ := mainSteps_step1 h hstart hch hboth.1
    have hcount : 6 = a + (5 - a + 1) := by omega
    rw [hcount, mainSteps_add, hstep1]
    apply mainSteps_exits
    simp only [mainStep, hlabels]

/-- Stopped runs and deleted files do no harm.  Data that is stored for the router is the
result of `main`, and the next run that nobody stops ends with this result exactly when
both files that it may read are whole or missing. -/
theorem run_recovers (parseDouble : List Char → Run δ) (entryOrder : List Int → List Int)
    (rnd : Nat → Nat) (text : List Char) (events : List Event) :
    let files := (Machine.after parseDouble entryOrder rnd text events).files
    let m := Machine.after parseDouble entryOrder rnd text
      (events ++ .restart :: List.replicate 6 .step)
    (∀ data, files.hubLabelData = .stored data →
        main parseDouble entryOrder rnd text = .ok data) ∧
      ∀ data, main parseDouble entryOrder rnd text = .ok data →
        (m.progress = .finished ↔ files.Readable) ∧
        (m.progress = .finished → m.files.hubLabelData = .stored data) := by
  have h := after_sound parseDouble entryOrder rnd text events
  simp only [after_append_steps]
  refine ⟨h.hubLabelData, ?_⟩
  intro data hmain
  have hstart := next_sound h .restart
  by_cases hready : (Machine.after parseDouble entryOrder rnd text events).files.Readable
  · obtain ⟨hfinished, hdata⟩ := mainSteps_of_readable hstart rfl hready hmain
    exact ⟨⟨fun _ => hready, fun _ => hfinished⟩, fun _ => hdata⟩
  · have hexited := mainSteps_of_torn hstart rfl hready hmain
    rw [hexited]
    refine ⟨⟨?_, fun hyes => absurd hyes hready⟩, ?_⟩
    · intro heq
      cases heq
    · intro heq
      cases heq

end LabelCreator

end SeaRouter
