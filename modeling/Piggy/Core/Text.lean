import Mathlib.Data.List.DropRight

/-!
# Text

Text is a list of characters. The line and whitespace rules are those of the source
language: a line ends at a newline, and a carriage return right before it belongs to
the line end; whitespace at the ends of a text is that of Unicode, whitespace between
words is that of ASCII.
-/

namespace Piggy.Core

/-- ASCII whitespace; the vertical tab is not part of it. -/
def isAsciiWhitespace (c : Char) : Bool :=
  c = ' ' || c = '\t' || c = '\n' || c = '\x0c' || c = '\r'

/-- The characters with the Unicode property `White_Space`. -/
def isWhitespace (c : Char) : Bool :=
  let n := c.toNat
  (0x9 ≤ n && n ≤ 0xD) || n = 0x20 || n = 0x85 || n = 0xA0 || n = 0x1680 ||
    (0x2000 ≤ n && n ≤ 0x200A) || n = 0x2028 || n = 0x2029 || n = 0x202F || n = 0x205F ||
    n = 0x3000

theorem isWhitespace_of_ascii {c : Char} (h : isAsciiWhitespace c = true) :
    isWhitespace c = true := by
  simp only [isAsciiWhitespace, Bool.or_eq_true, decide_eq_true_eq] at h
  obtain (((rfl | rfl) | rfl) | rfl) | rfl := h
  all_goals decide

theorem isUpper_iff {c : Char} : c.isUpper = true ↔ 65 ≤ c.toNat ∧ c.toNat ≤ 90 :=
  decide_eq_true_iff.trans (and_congr UInt32.le_iff_toNat_le UInt32.le_iff_toNat_le)

theorem isLower_iff {c : Char} : c.isLower = true ↔ 97 ≤ c.toNat ∧ c.toNat ≤ 122 :=
  Bool.and_eq_true_iff.trans (and_congr (decide_eq_true_iff.trans UInt32.le_iff_toNat_le)
    (decide_eq_true_iff.trans UInt32.le_iff_toNat_le))

theorem isDigit_iff {c : Char} : c.isDigit = true ↔ 48 ≤ c.toNat ∧ c.toNat ≤ 57 :=
  Bool.and_eq_true_iff.trans (and_congr (decide_eq_true_iff.trans UInt32.le_iff_toNat_le)
    (decide_eq_true_iff.trans UInt32.le_iff_toNat_le))

/-- A letter or a digit of ASCII. -/
theorem isAlphanum_iff {c : Char} : c.isAlphanum = true ↔
    (c.isUpper = true ∨ c.isLower = true) ∨ c.isDigit = true :=
  Bool.or_eq_true_iff.trans (or_congr_left Bool.or_eq_true_iff)

/-- A text without the white space in front. -/
def trimStart (s : List Char) : List Char := s.dropWhile isWhitespace

/-- A text without the white space around it. -/
def trim (s : List Char) : List Char := (trimStart s).rdropWhile isWhitespace

/-- A text without whitespace at its ends. -/
def Trimmed (s : List Char) : Prop :=
  (∀ c ∈ s.head?, isWhitespace c = false) ∧ ∀ c ∈ s.getLast?, isWhitespace c = false

/-- A text of whitespace only. -/
def IsBlank (s : List Char) : Prop := ∀ c ∈ s, isWhitespace c = true

instance (s : List Char) : Decidable (IsBlank s) := inferInstanceAs (Decidable (∀ c ∈ s, _))

theorem isBlank_nil : IsBlank [] := fun _ hc => nomatch hc

theorem trimStart_append_of_blank {s : List Char} (h : IsBlank s) (t : List Char) :
    trimStart (s ++ t) = trimStart t := by
  rw [trimStart, List.dropWhile_append_of_pos h]
  rfl

theorem trimStart_of_head {s : List Char} (h : ∀ c ∈ s.head?, isWhitespace c = false) :
    trimStart s = s := by
  cases s with
  | nil => rfl
  | cons c cs =>
    have hc := h c rfl
    rw [trimStart, List.dropWhile_cons_of_neg (by simp [hc])]

theorem trim_of_trimmed {s : List Char} (h : Trimmed s) : trim s = s := by
  rw [trim, trimStart_of_head h.1, List.rdropWhile_eq_self_iff]
  intro hne
  simpa using h.2 _ (List.getLast?_eq_some_getLast hne)

theorem trimStart_eq_nil_iff {s : List Char} : trimStart s = [] ↔ IsBlank s := by
  rw [trimStart, List.dropWhile_eq_nil_iff]
  rfl

theorem trim_eq_nil_iff {s : List Char} : trim s = [] ↔ IsBlank s := by
  rw [trim, List.rdropWhile_eq_nil_iff, ← trimStart_eq_nil_iff]
  constructor
  · intro h
    by_contra hne
    cases ht : trimStart s with
    | nil => exact hne ht
    | cons c cs =>
      have hc : isWhitespace c = true := h c (by rw [ht]; exact List.mem_cons_self)
      have hhead := List.head?_dropWhile_not isWhitespace s
      rw [← trimStart, ht, List.head?_cons] at hhead
      simp only at hhead
      rw [hc] at hhead
      cases hhead
  · intro h c hc
    rw [h] at hc
    cases hc

/-- Trimming starts with the first character that is no whitespace. -/
theorem head?_trim {s : List Char} (h : ¬ IsBlank s) : (trim s).head? = (trimStart s).head? := by
  have hne : trim s ≠ [] := fun hn => h (trim_eq_nil_iff.mp hn)
  obtain ⟨t, ht⟩ := List.rdropWhile_prefix isWhitespace (trimStart s)
  rw [trim] at hne ⊢
  cases hr : (trimStart s).rdropWhile isWhitespace with
  | nil => exact absurd hr hne
  | cons c cs => rw [← ht, hr, List.cons_append, List.head?_cons, List.head?_cons]

/-- What trimming leaves has no whitespace at its ends. -/
theorem trimmed_trim (s : List Char) : Trimmed (trim s) := by
  refine ⟨?_, ?_⟩
  · intro c hc
    by_cases hb : IsBlank s
    · rw [trim_eq_nil_iff.mpr hb] at hc
      cases hc
    · rw [head?_trim hb] at hc
      have hhead := List.head?_dropWhile_not isWhitespace s
      rw [← trimStart, Option.mem_def.mp hc] at hhead
      simpa using hhead
  · intro c hc
    have hne : trim s ≠ [] := by
      intro hn
      rw [hn] at hc
      cases hc
    have hlast := List.rdropWhile_last_not isWhitespace (trimStart s) hne
    rw [List.getLast?_eq_some_getLast hne, Option.mem_some_iff] at hc
    rw [← hc]
    change isWhitespace (((trimStart s).rdropWhile isWhitespace).getLast _) = false
    simpa using hlast

theorem mem_of_mem_trimStart {c : Char} {s : List Char} (h : c ∈ trimStart s) : c ∈ s :=
  (List.dropWhile_suffix _).subset h

theorem mem_of_mem_trim {c : Char} {s : List Char} (h : c ∈ trim s) : c ∈ s :=
  mem_of_mem_trimStart ((List.rdropWhile_prefix _ _).subset h)

/-- Whitespace at the end is trimmed. -/
theorem trim_concat_blank {c : Char} (hc : isWhitespace c = true) (s : List Char) :
    trim (s ++ [c]) = trim s := by
  rw [trim, trim, trimStart, trimStart, List.dropWhile_append]
  by_cases hs : (s.dropWhile isWhitespace).isEmpty = true
  · rw [if_pos hs, List.isEmpty_iff.mp hs, List.dropWhile_cons_of_pos hc]
    rfl
  · rw [if_neg hs, List.rdropWhile_concat_pos _ _ _ hc]

/-! ## Lines -/

/-- The lines of a text. The last line need not end in a newline. -/
def lines : List Char → List (List Char)
  | [] => []
  | c :: cs =>
    if c = '\n' then [] :: lines cs
    else if c = '\r' ∧ cs.head? = some '\n' then lines cs
    else match lines cs with
      | [] => [[c]]
      | line :: rest => (c :: line) :: rest

/-- A text that is empty or ends in a newline. -/
def Terminated (s : List Char) : Prop := ∀ c ∈ s.getLast?, c = '\n'

theorem Terminated.of_cons {c : Char} {s : List Char} (h : Terminated (c :: s)) : Terminated s := by
  cases s with
  | nil => simp [Terminated]
  | cons c' s => simpa [Terminated] using h

/-- Behind the end of a line the lines start anew. -/
theorem lines_append {s : List Char} (h : Terminated s) (t : List Char) :
    lines (s ++ t) = lines s ++ lines t := by
  induction s with
  | nil => rfl
  | cons c s ih =>
    rw [List.cons_append, lines, lines, ih h.of_cons]
    by_cases hc : c = '\n'
    · rw [if_pos hc, if_pos hc, List.cons_append]
    · -- a line that is not ended yet goes on in `s`
      have hs : s ≠ [] := by
        rintro rfl
        exact hc (h c rfl)
      have hlines : lines s ≠ [] := by
        cases s with
        | nil => exact absurd rfl hs
        | cons c' s =>
          rw [lines]
          by_cases hc' : c' = '\n'
          · simp [hc']
          · rw [if_neg hc']
            by_cases hcr : c' = '\r' ∧ s.head? = some '\n'
            · rw [if_pos hcr]
              obtain ⟨s', rfl⟩ := List.head?_eq_some_iff.mp hcr.2
              simp [lines]
            · rw [if_neg hcr]
              split <;> simp
      have hhead : (s ++ t).head? = s.head? := List.head?_append_of_ne_nil _ hs
      rw [if_neg hc, if_neg hc, hhead]
      by_cases hcr : c = '\r' ∧ s.head? = some '\n'
      · rw [if_pos hcr, if_pos hcr]
      · rw [if_neg hcr, if_neg hcr]
        cases hl : lines s with
        | nil => exact absurd hl hlines
        | cons line rest => rfl

/-- One line in front of the others, which loses a carriage return at its end. -/
theorem lines_line_stripped {line : List Char} (hnl : '\n' ∉ line) (t : List Char) :
    ∃ read, (line = read ∨ line = read ++ ['\r']) ∧ lines (line ++ '\n' :: t) = read :: lines t := by
  induction line with
  | nil => exact ⟨[], .inl rfl, by rw [List.nil_append, lines, if_pos rfl]⟩
  | cons c line ih =>
    have hc : c ≠ '\n' := fun h => hnl (h ▸ List.mem_cons_self)
    have hrest : '\n' ∉ line := fun h => hnl (List.mem_cons_of_mem _ h)
    rw [List.cons_append, lines, if_neg hc]
    by_cases hcr : c = '\r' ∧ (line ++ '\n' :: t).head? = some '\n'
    · obtain ⟨rfl, hhead⟩ := hcr
      rw [if_pos ⟨rfl, hhead⟩]
      cases line with
      | nil => exact ⟨[], .inr rfl, by rw [List.nil_append, lines, if_pos rfl]⟩
      | cons c' line =>
        simp only [List.cons_append, List.head?_cons, Option.some.injEq] at hhead
        exact absurd List.mem_cons_self (hhead ▸ hrest)
    · obtain ⟨read, hread, hlines⟩ := ih hrest
      rw [if_neg hcr, hlines]
      refine ⟨c :: read, ?_, rfl⟩
      rcases hread with rfl | rfl
      · exact .inl rfl
      · exact .inr rfl

/-- One line in front of the others. -/
theorem lines_line {line : List Char} (hnl : '\n' ∉ line) (hcr : line.getLast? ≠ some '\r')
    (t : List Char) : lines (line ++ '\n' :: t) = line :: lines t := by
  obtain ⟨read, rfl | rfl, hlines⟩ := lines_line_stripped hnl t
  · exact hlines
  · exact absurd List.getLast?_concat hcr

/-- A line has no newline in it. -/
theorem newline_notMem_lines {s line : List Char} (h : line ∈ lines s) : '\n' ∉ line := by
  induction s generalizing line with
  | nil => cases h
  | cons c s ih =>
    rw [lines] at h
    by_cases hc : c = '\n'
    · rw [if_pos hc] at h
      rcases List.mem_cons.mp h with rfl | hmem
      · simp
      · exact ih hmem
    · rw [if_neg hc] at h
      by_cases hcr : c = '\r' ∧ s.head? = some '\n'
      · rw [if_pos hcr] at h
        exact ih h
      · rw [if_neg hcr] at h
        cases hl : lines s with
        | nil =>
          rw [hl] at h
          obtain rfl := List.mem_singleton.mp h
          simpa [eq_comm] using hc
        | cons first rest =>
          rw [hl] at h
          rcases List.mem_cons.mp h with rfl | hmem
          · have hmem : first ∈ lines s := by
              rw [hl]
              exact List.mem_cons_self
            have hfirst := ih hmem
            simpa [eq_comm] using ⟨hc, hfirst⟩
          · exact ih (by rw [hl]; exact List.mem_cons_of_mem _ hmem)

/-- A text without newline is one line, unless it is empty. -/
theorem lines_of_newline_notMem {s : List Char} (h : '\n' ∉ s) (hne : s ≠ []) : lines s = [s] := by
  induction s with
  | nil => exact absurd rfl hne
  | cons c s ih =>
    have hc : c ≠ '\n' := fun he => h (he ▸ List.mem_cons_self)
    have hs : '\n' ∉ s := fun he => h (List.mem_cons_of_mem _ he)
    have hcr : ¬(c = '\r' ∧ s.head? = some '\n') :=
      fun he => hs (List.mem_of_mem_head? he.2)
    rw [lines, if_neg hc, if_neg hcr]
    cases s with
    | nil => rfl
    | cons c' s => rw [ih hs (by simp)]

/-- The text behind the last newline. -/
def lastLine (s : List Char) : List Char := s.rtakeWhile (· ≠ '\n')

/-- Nothing stands behind a final newline. -/
theorem lastLine_newline (s : List Char) : lastLine (s ++ ['\n']) = [] :=
  List.rtakeWhile_concat_neg _ _ _ (by simp)

/-- The text up to and with the last newline. -/
def fullLines (s : List Char) : List Char := s.rdropWhile (· ≠ '\n')

theorem fullLines_append_lastLine (s : List Char) : fullLines s ++ lastLine s = s :=
  List.rdropWhile_append_rtakeWhile ..

theorem terminated_fullLines (s : List Char) : Terminated (fullLines s) := by
  intro c hc
  have hne : fullLines s ≠ [] := by
    intro hn
    rw [hn] at hc
    cases hc
  have hlast := List.rdropWhile_last_not (· ≠ '\n') s hne
  rw [List.getLast?_eq_some_getLast hne, Option.mem_some_iff] at hc
  rw [← hc]
  simpa [fullLines] using hlast

theorem newline_notMem_lastLine (s : List Char) : '\n' ∉ lastLine s := by
  intro h
  simpa using List.mem_rtakeWhile_imp h

/-! ## Splitting at a pattern -/

/-- Splits a text at the first place where a pattern stands. -/
def splitOnce (pattern : List Char) : List Char → Option (List Char × List Char)
  | [] => if pattern = [] then some ([], []) else none
  | c :: cs =>
    if pattern <+: c :: cs then some ([], (c :: cs).drop pattern.length)
    else (splitOnce pattern cs).map fun (before, after) => (c :: before, after)

/-- A text is split where the pattern stands, and joined there it is the text again. -/
theorem splitOnce_eq_some {pattern text before after : List Char}
    (h : splitOnce pattern text = some (before, after)) : text = before ++ (pattern ++ after) := by
  induction text generalizing before with
  | nil =>
    rw [splitOnce] at h
    by_cases hp : pattern = []
    · rw [if_pos hp] at h
      cases h
      simp [hp]
    · rw [if_neg hp] at h
      cases h
  | cons c cs ih =>
    rw [splitOnce] at h
    by_cases hp : pattern <+: c :: cs
    · rw [if_pos hp] at h
      cases h
      exact List.prefix_iff_eq_append.mp hp |>.symm
    · rw [if_neg hp, Option.map_eq_some_iff] at h
      obtain ⟨⟨before', after'⟩, hsplit, heq⟩ := h
      cases heq
      rw [ih hsplit, List.cons_append]

/-- A text is not split exactly when the pattern stands nowhere in it. -/
theorem splitOnce_eq_none_iff {pattern text : List Char} :
    splitOnce pattern text = none ↔ ¬ pattern <:+: text := by
  induction text with
  | nil =>
    rw [splitOnce, List.infix_nil]
    by_cases hp : pattern = [] <;> simp [hp]
  | cons c cs ih =>
    rw [splitOnce, List.infix_cons_iff, not_or]
    by_cases hp : pattern <+: c :: cs
    · simp [hp]
    · simp [hp, ih]

/-- A text in which the pattern does not stand and whose last character is none of the
pattern's is split off in front of the pattern. -/
theorem splitOnce_append {pattern before : List Char} (hno : ¬ pattern <:+: before)
    (hlast : ∀ c ∈ before.getLast?, c ∉ pattern) (after : List Char) :
    splitOnce pattern (before ++ (pattern ++ after)) = some (before, after) := by
  induction before with
  | nil =>
    cases pattern with
    | nil => exact absurd (List.nil_infix) hno
    | cons p ps =>
      have hp : p :: ps <+: p :: (ps ++ after) := List.prefix_append (p :: ps) after
      rw [List.nil_append, List.cons_append, splitOnce, if_pos hp, ← List.cons_append,
        List.drop_left]
  | cons c cs ih =>
    have hpre : ¬ pattern <+: (c :: cs) ++ (pattern ++ after) := by
      intro hp
      rcases Nat.le_total pattern.length (c :: cs).length with hle | hle
      · exact hno (List.prefix_of_prefix_length_le hp (List.prefix_append _ _) hle).isInfix
      · -- the pattern would begin with all of the text in front of it
        have hcs := List.prefix_of_prefix_length_le (List.prefix_append (c :: cs) _) hp hle
        have hmem := List.getLast_mem (List.cons_ne_nil c cs)
        exact hlast _ (List.getLast?_eq_some_getLast (List.cons_ne_nil c cs)) (hcs.subset hmem)
    rw [List.cons_append] at hpre ⊢
    rw [splitOnce, if_neg hpre, ih]
    · rfl
    · exact fun hinf => hno (hinf.trans (List.suffix_cons c cs).isInfix)
    · intro c' hc'
      cases cs with
      | nil => cases hc'
      | cons d ds => exact hlast c' hc'

/-- Where the pattern stands in a text, a longer text is split inside that text too. -/
theorem splitOnce_of_infix {pattern text : List Char} (h : pattern <:+: text) (tail : List Char) :
    ∃ before rest, splitOnce pattern (text ++ tail) = some (before, rest ++ tail) ∧
      text = before ++ (pattern ++ rest) := by
  rcases hsplit : splitOnce pattern text with _ | ⟨before, rest⟩
  · exact absurd h (splitOnce_eq_none_iff.mp hsplit)
  refine ⟨before, rest, ?_, splitOnce_eq_some hsplit⟩
  clear h
  induction text generalizing before with
  | nil =>
    rw [splitOnce] at hsplit
    by_cases hp : pattern = []
    · rw [if_pos hp] at hsplit
      cases hsplit
      subst hp
      cases tail <;> simp [splitOnce]
    · rw [if_neg hp] at hsplit
      cases hsplit
  | cons c cs ih =>
    rw [splitOnce] at hsplit
    by_cases hp : pattern <+: c :: cs
    · rw [if_pos hp] at hsplit
      cases hsplit
      have hp' : pattern <+: c :: (cs ++ tail) := hp.trans (List.prefix_append (c :: cs) tail)
      rw [List.cons_append, splitOnce, if_pos hp', ← List.cons_append,
        List.drop_append_of_le_length hp.length_le]
    · rw [if_neg hp, Option.map_eq_some_iff] at hsplit
      obtain ⟨⟨before', rest'⟩, hcs, heq⟩ := hsplit
      cases heq
      have htail := ih before' hcs
      have hp' : ¬ pattern <+: c :: (cs ++ tail) := by
        intro hpre
        have hlen : pattern.length ≤ (c :: cs).length := by
          rw [splitOnce_eq_some hcs]
          simp only [List.length_cons, List.length_append]
          omega
        exact hp (List.prefix_of_prefix_length_le hpre (List.prefix_append (c :: cs) tail) hlen)
      rw [List.cons_append, splitOnce, if_neg hp', htail]
      rfl

/-! ## Literals -/

/-- A statement about the text of a literal is one about its characters, where it can be computed
without decoding them. -/
theorem of_toList {p : List Char → Prop} {s : List Char} (h : p s) : p (String.ofList s).toList := by
  rw [String.toList_ofList]
  exact h

theorem of_toList_append {p : List Char → Prop} {s t : List Char} (h : p (s ++ t)) :
    p (String.ofList s ++ String.ofList t).toList := by
  rw [String.toList_append, String.toList_ofList, String.toList_ofList]
  exact h

end Piggy.Core
