import SeaRouter.Lib.Run

/-!
# Text files

A text is the list of its characters.  `valueOf` and `parseInt` are the decimal
form of an `int` and its inverse, `lines` are the lines that a reader returns
one after the other, and `trim` and `split` cut one line into its fields.

The lemmas are about texts that a program has written itself: the fields of a
line hold neither blanks nor line ends, so that reading gives back what was
written.
-/

namespace Java

/-- The values of the type `int`. -/
def IsInt (x : Int) : Prop := -2147483648 ≤ x ∧ x ≤ 2147483647

instance (x : Int) : Decidable (IsInt x) :=
  inferInstanceAs (Decidable (-2147483648 ≤ x ∧ x ≤ 2147483647))

/-- `String.valueOf(x)` of an `int`. -/
def valueOf (x : Int) : List Char :=
  if x < 0 then '-' :: Nat.toDigits 10 x.natAbs else Nat.toDigits 10 x.natAbs

/-- The number that a sequence of digits stands for; only the ASCII digits are read, not the
digits of other scripts. -/
def parseDigits (s : List Char) : Run Nat :=
  if s ≠ [] ∧ s.all Char.isDigit = true then .ok (Nat.ofDigitChars 10 s 0)
  else .error .numberFormat

/-- The text before the sign was taken off stands for `x`, if this is an `int`. -/
def inRange (x : Int) : Run Int := if IsInt x then .ok x else .error .numberFormat

/-- `Integer.parseInt(s)`. -/
def parseInt (s : List Char) : Run Int :=
  match s with
  | '-' :: s => do inRange (-(← parseDigits s))
  | '+' :: s => do inRange (← parseDigits s)
  | s => do inRange (← parseDigits s)

/-- The lines of a text, for a reader that has just read a carriage return if
`skip` is set: a line feed that comes next belongs to the same line end. -/
def linesFrom : Bool → List Char → List (List Char)
  | _, [] => []
  | skip, c :: s =>
    if c = '\n' then if skip then linesFrom false s else [] :: linesFrom false s
    else if c = '\r' then [] :: linesFrom true s
    else match linesFrom false s with
      | [] => [[c]]
      | l :: ls => (c :: l) :: ls

/-- The lines that `readLine()` returns until it returns `null`. -/
def lines (s : List Char) : List (List Char) := linesFrom false s

/-- `s.trim()`: characters up to the blank are taken off at both ends. -/
def trim (s : List Char) : List Char :=
  ((s.dropWhile (fun c => decide (c ≤ ' '))).reverse.dropWhile
    (fun c => decide (c ≤ ' '))).reverse

/-- `s.split(" ")`: the fields between single blanks, without empty ones at the
end. -/
def split (s : List Char) : List (List Char) :=
  if ' ' ∈ s then ((s.splitOn ' ').reverse.dropWhile List.isEmpty).reverse else [s]

/-! ## Numbers -/

theorem isDigit_of_mem_valueOf {x : Int} {c : Char} (h : c ∈ valueOf x) :
    c = '-' ∨ c.isDigit = true := by
  unfold valueOf at h
  split_ifs at h with hx
  · rcases List.mem_cons.mp h with h | h
    · exact Or.inl h
    · exact Or.inr (Nat.isDigit_of_mem_toDigits (by omega) (by omega) h)
  · exact Or.inr (Nat.isDigit_of_mem_toDigits (by omega) (by omega) h)

theorem parseDigits_toDigits (n : Nat) : parseDigits (Nat.toDigits 10 n) = .ok n := by
  have hall : (Nat.toDigits 10 n).all Char.isDigit = true := by
    rw [List.all_eq_true]
    intro c hc
    exact Nat.isDigit_of_mem_toDigits (by omega) (by omega) hc
  rw [parseDigits, if_pos ⟨Nat.toDigits_ne_nil, hall⟩, Nat.ofDigitChars_ten_toDigits]

/-- The first digit of a number is not taken for a sign. -/
theorem parseInt_toDigits (n : Nat) :
    parseInt (Nat.toDigits 10 n) = inRange n := by
  have hp := parseDigits_toDigits n
  have hdigit : ∀ c ∈ Nat.toDigits 10 n, c.isDigit = true := by
    intro c hc
    exact Nat.isDigit_of_mem_toDigits (by omega) (by omega) hc
  unfold parseInt
  split
  next s hs =>
    have := hdigit '-' (by rw [hs]; exact List.mem_cons_self)
    exact absurd this (by decide)
  next s hs =>
    have := hdigit '+' (by rw [hs]; exact List.mem_cons_self)
    exact absurd this (by decide)
  next => rw [hp, ok_bind]

theorem parseInt_valueOf {x : Int} (h : IsInt x) : parseInt (valueOf x) = .ok x := by
  unfold valueOf
  split_ifs with hx
  · have habs : -((x.natAbs : Nat) : Int) = x := by omega
    rw [parseInt, parseDigits_toDigits, ok_bind, habs, inRange, if_pos h]
  · have habs : ((x.natAbs : Nat) : Int) = x := by omega
    rw [parseInt_toDigits, habs, inRange, if_pos h]

/-- What is parsed is an int. -/
theorem isInt_of_parseInt {s : List Char} {x : Int} (h : parseInt s = .ok x) : IsInt x := by
  have hrange : ∀ y : Int, inRange y = .ok x → IsInt x := by
    intro y hy
    rw [inRange] at hy
    split_ifs at hy with hint
    rw [← Except.ok.inj hy]
    exact hint
  unfold parseInt at h
  split at h <;> (rw [bind_eq_ok] at h; obtain ⟨m, _, hm⟩ := h; exact hrange _ hm)

/-! ## Lines and fields -/

/-- The text has no line end. -/
def IsLine (s : List Char) : Prop := '\n' ∉ s ∧ '\r' ∉ s

theorem isLine_append {s t : List Char} (hs : IsLine s) (ht : IsLine t) : IsLine (s ++ t) := by
  simp only [IsLine, List.mem_append, not_or] at hs ht ⊢
  exact ⟨⟨hs.1, ht.1⟩, hs.2, ht.2⟩

theorem isLine_valueOf (x : Int) : IsLine (valueOf x) := by
  constructor
  · intro h
    rcases isDigit_of_mem_valueOf h with h | h
    · exact absurd h (by decide)
    · exact absurd h (by decide)
  · intro h
    rcases isDigit_of_mem_valueOf h with h | h
    · exact absurd h (by decide)
    · exact absurd h (by decide)

/-- The text is a field of a line: it is not empty and has no blanks and no
control characters. -/
def IsField (s : List Char) : Prop := s ≠ [] ∧ ∀ c ∈ s, ¬ c ≤ ' '

theorem isField_valueOf (x : Int) : IsField (valueOf x) := by
  constructor
  · unfold valueOf
    split_ifs
    · simp
    · exact Nat.toDigits_ne_nil
  · intro c hc hle
    rcases isDigit_of_mem_valueOf hc with rfl | hd
    · exact absurd hle (by decide)
    · simp only [Char.isDigit, Bool.and_eq_true, decide_eq_true_eq, ge_iff_le] at hd
      have h48 : '0' ≤ c := hd.1
      exact absurd (Char.le_trans h48 hle) (by decide)

theorem IsField.isLine {s : List Char} (h : IsField s) : IsLine s :=
  ⟨fun hc => h.2 _ hc (by decide), fun hc => h.2 _ hc (by decide)⟩

/-- Nothing is taken off at the end of a text that ends with a field. -/
theorem dropWhile_reverse {s c : List Char} (hc : IsField c) :
    (s ++ c).reverse.dropWhile (fun c => decide (c ≤ ' ')) = (s ++ c).reverse := by
  obtain ⟨y, c', hy⟩ := List.exists_cons_of_ne_nil (List.reverse_ne_nil_iff.mpr hc.1)
  have hyc : ¬ y ≤ ' ' := by
    apply hc.2 y
    rw [← List.mem_reverse, hy]
    exact List.mem_cons_self
  rw [List.reverse_append, hy, List.cons_append,
    List.dropWhile_cons_of_neg (by simpa using hyc)]

/-- A text that begins and ends with a field is not trimmed. -/
theorem trim_of_fields {a s t c : List Char} (ha : IsField a) (hc : IsField c)
    (h : a ++ s = t ++ c) : trim (a ++ s) = a ++ s := by
  obtain ⟨x, a', rfl⟩ := List.exists_cons_of_ne_nil ha.1
  have hx : ¬ x ≤ ' ' := ha.2 x List.mem_cons_self
  have hfront : (x :: a' ++ s).dropWhile (fun c => decide (c ≤ ' ')) = x :: a' ++ s := by
    rw [List.cons_append, List.dropWhile_cons_of_neg (by simpa using hx)]
  rw [trim, hfront, h, dropWhile_reverse hc, List.reverse_reverse]

theorem trim_of_isField {a : List Char} (h : IsField a) : trim a = a := by
  have := trim_of_fields (s := []) (t := []) h h (by simp)
  rwa [List.append_nil] at this

/-- The line of three fields, as it is written. -/
def line3 (a b c : List Char) : List Char := a ++ ' ' :: (b ++ ' ' :: c)

theorem trim_line3 {a b c : List Char} (ha : IsField a) (hc : IsField c) :
    trim (line3 a b c) = line3 a b c := by
  exact trim_of_fields (t := a ++ ' ' :: (b ++ [' '])) ha hc (by simp)

theorem isLine_line3 {a b c : List Char} (ha : IsField a) (hb : IsField b) (hc : IsField c) :
    IsLine (line3 a b c) := by
  have hblank : ∀ {s : List Char}, IsLine s → IsLine (' ' :: s) := by
    intro s hs
    exact isLine_append (s := [' ']) ⟨by decide, by decide⟩ hs
  exact isLine_append ha.isLine (hblank (isLine_append hb.isLine (hblank hc.isLine)))

/-- The fields are read back. -/
theorem split_line3 {a b c : List Char} (ha : IsField a) (hb : IsField b) (hc : IsField c) :
    split (line3 a b c) = [a, b, c] := by
  have hnot : ∀ {s : List Char}, IsField s → ' ' ∉ s := fun h hmem => h.2 _ hmem (by decide)
  have hline : line3 a b c = [' '].intercalate [a, b, c] := by
    simp [line3, List.intercalate]
  have hsplit : (line3 a b c).splitOn ' ' = [a, b, c] := by
    rw [hline]
    apply List.splitOn_intercalate
    · intro l hl
      rcases List.mem_cons.mp hl with rfl | hl
      · exact hnot ha
      · rcases List.mem_cons.mp hl with rfl | hl
        · exact hnot hb
        · rw [List.mem_singleton.mp hl]
          exact hnot hc
    · simp
  have hc' : c.isEmpty = false := by
    rw [List.isEmpty_eq_false_iff]
    exact hc.1
  rw [split, if_pos (by simp [line3]), hsplit]
  simp [hc']

/-- A line that ends is read as it was written. -/
theorem lines_cons {s : List Char} (h : IsLine s) (rest : List Char) :
    lines (s ++ '\n' :: rest) = s :: lines rest := by
  induction s with
  | nil => simp [lines, linesFrom]
  | cons c s ih =>
    obtain ⟨hn, hr⟩ := h
    simp only [List.mem_cons, not_or] at hn hr
    have hrest := ih ⟨hn.2, hr.2⟩
    rw [lines] at hrest ⊢
    rw [List.cons_append, linesFrom, if_neg (Ne.symm hn.1), if_neg (Ne.symm hr.1), hrest]

/-- A text that was written line by line. -/
theorem lines_unlines (ls : List (List Char)) (h : ∀ s ∈ ls, IsLine s) :
    lines (ls.flatMap (fun s => s ++ ['\n'])) = ls := by
  induction ls with
  | nil => rfl
  | cons s ls ih =>
    rw [List.flatMap_cons, List.append_assoc, List.singleton_append,
      lines_cons (h s List.mem_cons_self), ih (fun t ht => h t (List.mem_cons_of_mem s ht))]

end Java
