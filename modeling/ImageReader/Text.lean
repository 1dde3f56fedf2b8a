import ImageReader.Outcome
import Mathlib.Data.List.DropRight

/-!
# Texts

The string functions a descriptor is read with.  A text is its list of
characters; white space is the Unicode property of that name.
-/

namespace ImageReader

abbrev Text := List Char

/-- `path.rsplit_once(c)` -/
def rsplitOnce (c : Char) : Text → Option (Text × Text)
  | [] => none
  | head :: rest =>
      match rsplitOnce c rest with
      | some (before, after) => some (head :: before, after)
      | none => if head = c then some ([], rest) else none

theorem eq_of_rsplitOnce {c : Char} {text before after : Text}
    (h : rsplitOnce c text = some (before, after)) :
    text = before ++ c :: after := by
  induction text generalizing before with
  | nil => simp [rsplitOnce] at h
  | cons head rest ih =>
      unfold rsplitOnce at h
      cases hrest : rsplitOnce c rest with
      | none =>
          simp only [hrest] at h
          split_ifs at h with hhead
          obtain ⟨rfl, rfl⟩ : [] = before ∧ rest = after := by simpa using h
          rw [hhead]
          rfl
      | some parts =>
          obtain ⟨before', after'⟩ := parts
          rw [hrest] at h
          obtain ⟨rfl, rfl⟩ : head :: before' = before ∧ after' = after := by
            simpa using h
          rw [ih hrest]
          rfl

theorem rsplitOnce_eq_none_iff {c : Char} {text : Text} :
    rsplitOnce c text = none ↔ c ∉ text := by
  induction text with
  | nil => simp [rsplitOnce]
  | cons head rest ih =>
      rw [List.mem_cons, not_or]
      unfold rsplitOnce
      cases hrest : rsplitOnce c rest with
      | some parts =>
          have hin : c ∈ rest := by simpa [hrest] using ih
          simp [hin]
      | none =>
          have hnot : c ∉ rest := ih.mp hrest
          simp [hnot, eq_comm]

theorem rsplitOnce_of_not_mem {c : Char} {text : Text} (h : c ∉ text) :
    rsplitOnce c text = none :=
  rsplitOnce_eq_none_iff.mpr h

theorem not_mem_of_rsplitOnce {c : Char} {text before after : Text}
    (h : rsplitOnce c text = some (before, after)) : c ∉ after := by
  induction text generalizing before with
  | nil => simp [rsplitOnce] at h
  | cons head rest ih =>
      unfold rsplitOnce at h
      cases hrest : rsplitOnce c rest with
      | none =>
          simp only [hrest] at h
          split_ifs at h
          obtain ⟨-, rfl⟩ : [] = before ∧ rest = after := by simpa using h
          exact rsplitOnce_eq_none_iff.mp hrest
      | some parts =>
          obtain ⟨before', after'⟩ := parts
          rw [hrest] at h
          obtain ⟨-, rfl⟩ : head :: before' = before ∧ after' = after := by
            simpa using h
          exact ih hrest

theorem rsplitOnce_append {c : Char} (before : Text) {after : Text}
    (h : c ∉ after) :
    rsplitOnce c (before ++ c :: after) = some (before, after) := by
  induction before with
  | nil =>
      rw [List.nil_append]
      unfold rsplitOnce
      rw [rsplitOnce_of_not_mem h]
      simp
  | cons head rest ih =>
      rw [List.cons_append]
      unfold rsplitOnce
      rw [ih]

/-- A character map which moves no character to `c` or away from it leaves the
last `c` where it is. -/
theorem rsplitOnce_map {c : Char} {f : Char → Char}
    (hf : ∀ head, f head = c ↔ head = c) (text : Text) :
    rsplitOnce c (text.map f) =
      (rsplitOnce c text).map (Prod.map (List.map f) (List.map f)) := by
  induction text with
  | nil => rfl
  | cons head rest ih =>
      rw [List.map_cons]
      unfold rsplitOnce
      rw [ih]
      cases rsplitOnce c rest with
      | some parts => rfl
      | none =>
          simp only [Option.map_none, hf]
          split_ifs <;> rfl

namespace Text

/-- `c.is_whitespace()` -/
def isWhitespace (c : Char) : Bool :=
  (9 ≤ c.toNat && c.toNat ≤ 13) || c.toNat = 0x20 || c.toNat = 0x85 ||
    c.toNat = 0xA0 || c.toNat = 0x1680 ||
    (0x2000 ≤ c.toNat && c.toNat ≤ 0x200A) || c.toNat = 0x2028 ||
    c.toNat = 0x2029 || c.toNat = 0x202F || c.toNat = 0x205F ||
    c.toNat = 0x3000

/-- `text.trim_start()` -/
def trimStart (text : Text) : Text := text.dropWhile isWhitespace

/-- `text.trim_end()` -/
def trimEnd (text : Text) : Text := text.rdropWhile isWhitespace

/-- `text.trim()` -/
def trim (text : Text) : Text := trimEnd (trimStart text)

/-- `text.split_once(c)` -/
def splitOnce (c : Char) : Text → Option (Text × Text)
  | [] => none
  | head :: rest =>
      if head = c then some ([], rest)
      else (splitOnce c rest).map fun parts => (head :: parts.1, parts.2)

/-- `text.strip_prefix(c)` -/
def stripHead (c : Char) : Text → Option Text
  | [] => none
  | head :: rest => if head = c then some rest else none

/-- `text.strip_suffix(c)` -/
def stripLast (c : Char) (text : Text) : Option Text :=
  if text.getLast? = some c then some text.dropLast else none

/-- `text.split_inclusive(c)` -/
def splitInclusive (c : Char) : Text → List Text
  | [] => []
  | head :: rest =>
      if head = c then [head] :: splitInclusive c rest
      else match splitInclusive c rest with
        | [] => [[head]]
        | piece :: pieces => (head :: piece) :: pieces

/-- A line without its line feed, and without the carriage return in front
of that. -/
def chomp (line : Text) : Text :=
  match stripLast '\n' line with
  | none => line
  | some line => (stripLast '\r' line).getD line

/-- `text.lines()` -/
def lines (text : Text) : List Text := (splitInclusive '\n' text).map chomp

/-! ## Trimming -/

/-- Nothing but white space. -/
def Blank (text : Text) : Prop := ∀ c ∈ text, isWhitespace c = true

variable {text lead core trail : Text}

theorem blank_nil : Blank [] := by simp [Blank]

theorem Blank.append (h : lead.Blank) (h' : trail.Blank) :
    Blank (lead ++ trail) := by
  intro c hc
  rcases List.mem_append.mp hc with hc | hc
  · exact h c hc
  · exact h' c hc

theorem blank_spaces (n : ℕ) : Blank (List.replicate n ' ') := by
  intro c hc
  rw [List.eq_of_mem_replicate hc]
  decide

theorem trimStart_append (h : lead.Blank) (text : Text) :
    trimStart (lead ++ text) = trimStart text := by
  unfold trimStart
  exact List.dropWhile_append_of_pos h

theorem trimStart_of_head {c : Char} (h : isWhitespace c = false)
    (rest : Text) : trimStart (c :: rest) = c :: rest := by
  simp [trimStart, h]

theorem exists_trimStart (text : Text) :
    ∃ lead, Blank lead ∧ text = lead ++ trimStart text :=
  ⟨text.takeWhile isWhitespace, fun _ hc => List.mem_takeWhile_imp hc,
    List.takeWhile_append_dropWhile.symm⟩

theorem trimEnd_append (h : trail.Blank) (text : Text) :
    trimEnd (text ++ trail) = trimEnd text := by
  unfold trimEnd List.rdropWhile
  rw [List.reverse_append, List.dropWhile_append_of_pos]
  intro c hc
  exact h c (List.mem_reverse.mp hc)

theorem trimEnd_of_last {c : Char} (h : isWhitespace c = false) (text : Text) :
    trimEnd (text ++ [c]) = text ++ [c] :=
  List.rdropWhile_concat_neg _ _ _ (by simp [h])

theorem exists_trimEnd (text : Text) :
    ∃ trail, Blank trail ∧ text = trimEnd text ++ trail :=
  ⟨text.rtakeWhile isWhitespace, fun _ hc => List.mem_rtakeWhile_imp hc,
    List.rdropWhile_append_rtakeWhile.symm⟩

/-- What starts and ends with something visible is what trimming leaves. -/
theorem trim_surrounded {c c' : Char} {front rest : Text} (hlead : lead.Blank)
    (htrail : trail.Blank) (hhead : core = c :: rest)
    (hc : isWhitespace c = false) (hlast : core = front ++ [c'])
    (hc' : isWhitespace c' = false) :
    trim (lead ++ core ++ trail) = core := by
  have hstart : trimStart (core ++ trail) = core ++ trail := by
    rw [hhead]
    exact trimStart_of_head hc (rest ++ trail)
  unfold trim
  rw [List.append_assoc, trimStart_append hlead, hstart, trimEnd_append htrail,
    hlast]
  exact trimEnd_of_last hc' front

theorem exists_trim (text : Text) :
    ∃ lead trail, Blank lead ∧ Blank trail ∧
      text = lead ++ trim text ++ trail := by
  obtain ⟨lead, hlead, hstart⟩ := exists_trimStart text
  obtain ⟨trail, htrail, hend⟩ := exists_trimEnd (trimStart text)
  refine ⟨lead, trail, hlead, htrail, ?_⟩
  rw [List.append_assoc]
  unfold trim
  rw [← hend]
  exact hstart

/-! ## Splitting -/

theorem splitOnce_eq_none_iff {c : Char} :
    splitOnce c text = none ↔ c ∉ text := by
  induction text with
  | nil => simp [splitOnce]
  | cons head rest ih =>
      unfold splitOnce
      by_cases hhead : head = c
      · simp [hhead]
      · rw [if_neg hhead, Option.map_eq_none_iff, ih]
        simp [Ne.symm hhead]

theorem splitOnce_append {c : Char} {before : Text} (h : c ∉ before)
    (after : Text) : splitOnce c (before ++ c :: after) = some (before, after) := by
  induction before with
  | nil => simp [splitOnce]
  | cons head rest ih =>
      rw [List.mem_cons, not_or] at h
      rw [List.cons_append]
      unfold splitOnce
      rw [if_neg (Ne.symm h.1), ih h.2]
      rfl

theorem splitOnce_eq_some_iff {c : Char} {before after : Text} :
    splitOnce c text = some (before, after) ↔
      text = before ++ c :: after ∧ c ∉ before := by
  constructor
  · intro h
    induction text generalizing before with
    | nil => simp [splitOnce] at h
    | cons head rest ih =>
        unfold splitOnce at h
        by_cases hhead : head = c
        · rw [if_pos hhead] at h
          obtain ⟨rfl, rfl⟩ : [] = before ∧ rest = after := by simpa using h
          simp [hhead]
        · rw [if_neg hhead] at h
          obtain ⟨⟨before', after'⟩, hrest, heq⟩ := Option.map_eq_some_iff.mp h
          obtain ⟨rfl, rfl⟩ : head :: before' = before ∧ after' = after := by
            simpa using heq
          obtain ⟨rfl, hnot⟩ := ih hrest
          exact ⟨rfl, by simp [Ne.symm hhead, hnot]⟩
  · rintro ⟨rfl, hbefore⟩
    exact splitOnce_append hbefore after

theorem stripHead_eq_some_iff {c : Char} {rest : Text} :
    stripHead c text = some rest ↔ text = c :: rest := by
  cases text with
  | nil => simp [stripHead]
  | cons head tail =>
      unfold stripHead
      by_cases hhead : head = c
      · simp [hhead]
      · simp [hhead]

/-! ## Lines -/

theorem splitInclusive_append {c : Char} {piece : Text} (h : c ∉ piece)
    (rest : Text) :
    splitInclusive c (piece ++ c :: rest) =
      (piece ++ [c]) :: splitInclusive c rest := by
  induction piece with
  | nil => simp [splitInclusive]
  | cons head tail ih =>
      rw [List.mem_cons, not_or] at h
      rw [List.cons_append, splitInclusive, if_neg (Ne.symm h.1), ih h.2]
      rfl

/-- A line in front of its line feed. -/
def chompCr (line : Text) : Text := (stripLast '\r' line).getD line

theorem chompCr_of_last {c : Char} (h : c ≠ '\r') (line : Text) :
    chompCr (line ++ [c]) = line ++ [c] := by
  simp [chompCr, stripLast, h]

theorem exists_chompCr (line : Text) : ∃ tail, line = chompCr line ++ tail := by
  unfold chompCr stripLast
  split_ifs with h
  · obtain ⟨front, hfront⟩ := List.getLast?_eq_some_iff.mp h
    exact ⟨['\r'], by simp [hfront]⟩
  · exact ⟨[], by simp⟩

/-- A text without a line feed is one line, or none. -/
theorem lines_of_not_mem {line : Text} (h : '\n' ∉ line) (hne : line ≠ []) :
    lines line = [line] := by
  have hsplit : splitInclusive '\n' line = [line] := by
    induction line with
    | nil => contradiction
    | cons head rest ih =>
        rw [List.mem_cons, not_or] at h
        rw [splitInclusive, if_neg (Ne.symm h.1)]
        cases rest with
        | nil => rfl
        | cons head' rest' => rw [ih h.2 (List.cons_ne_nil _ _)]
  have hchomp : chomp line = line := by
    unfold chomp stripLast
    rw [if_neg]
    intro hlast
    exact h (List.mem_of_getLast? hlast)
  rw [lines, hsplit, List.map_cons, hchomp, List.map_nil]

/-- A text is cut into lines at its line feeds. -/
theorem lines_append {line : Text} (h : '\n' ∉ line) (rest : Text) :
    lines (line ++ '\n' :: rest) = chompCr line :: lines rest := by
  unfold lines
  rw [splitInclusive_append h, List.map_cons]
  have hstrip : stripLast '\n' (line ++ ['\n']) = some line := by
    simp [stripLast]
  have hchomp : chomp (line ++ ['\n']) = chompCr line := by
    unfold chomp
    rw [hstrip]
    rfl
  rw [hchomp]

end Text

/-! ## Numbers -/

inductive ParseIntError where
  | empty
  | invalidDigit
  | posOverflow
  deriving DecidableEq, Repr

/-- What the error displays. -/
def ParseIntError.text : ParseIntError → Text
  | empty => "cannot parse integer from empty string".toList
  | invalidDigit => "invalid digit found in string".toList
  | posOverflow => "number too large to fit in target type".toList

namespace Text

/-- One more decimal digit of a `u64`. -/
def pushDigit (acc : ℕ) (c : Char) : Except ParseIntError ℕ :=
  if c.isDigit = false then .error .invalidDigit
  else if acc * 10 + (c.toNat - '0'.toNat) < 2 ^ 64 then
    .ok (acc * 10 + (c.toNat - '0'.toNat))
  else .error .posOverflow

/-- `text.parse::<u64>()`: decimal digits behind an optional plus sign. -/
def parseU64 : Text → Except ParseIntError ℕ
  | [] => .error .empty
  | ['+'] => .error .invalidDigit
  | '+' :: digits => digits.foldlM pushDigit 0
  | digits => digits.foldlM pushDigit 0

/-- The decimal digits of a `u64`, perhaps behind a plus sign. -/
def Numeral (text : Text) (n : ℕ) : Prop :=
  ∃ digits : Text, digits ≠ [] ∧ (∀ c ∈ digits, c.isDigit = true) ∧
    (text = digits ∨ text = '+' :: digits) ∧
    Nat.ofDigitChars 10 digits 0 = n ∧ n < 2 ^ 64

theorem pushDigit_eq_ok_iff {acc n : ℕ} {c : Char} :
    pushDigit acc c = .ok n ↔
      c.isDigit = true ∧ acc * 10 + (c.toNat - '0'.toNat) = n ∧ n < 2 ^ 64 := by
  unfold pushDigit
  cases c.isDigit with
  | false => simp
  | true =>
      by_cases hlt : acc * 10 + (c.toNat - '0'.toNat) < 2 ^ 64
      · rw [if_neg (by simp), if_pos hlt]
        simp only [Except.ok.injEq, true_and]
        constructor
        · rintro rfl
          exact ⟨rfl, hlt⟩
        · exact And.left
      · rw [if_neg (by simp), if_neg hlt]
        simp only [reduceCtorEq, true_and, false_iff, not_and]
        rintro rfl
        exact hlt

theorem le_ofDigitChars (digits : Text) (acc : ℕ) :
    acc ≤ Nat.ofDigitChars 10 digits acc := by
  rw [Nat.ofDigitChars_eq_ofDigitChars_zero]
  have : acc ≤ 10 ^ digits.length * acc :=
    Nat.le_mul_of_pos_left acc (by positivity)
  omega

/-- Digits are accepted as long as the number they spell is a `u64`: the
number of a prefix is never more. -/
theorem foldlM_pushDigit_eq_ok_iff {digits : Text} {acc n : ℕ}
    (hacc : acc < 2 ^ 64) :
    digits.foldlM pushDigit acc = .ok n ↔
      (∀ c ∈ digits, c.isDigit = true) ∧
        Nat.ofDigitChars 10 digits acc = n ∧ n < 2 ^ 64 := by
  induction digits generalizing acc with
  | nil =>
      simp only [List.foldlM_nil, List.not_mem_nil, false_implies,
        implies_true, Nat.ofDigitChars_nil, true_and]
      constructor
      · intro h
        obtain rfl := Except.ok.inj h
        exact ⟨rfl, hacc⟩
      · rintro ⟨rfl, _⟩
        rfl
  | cons c digits ih =>
      rw [List.foldlM_cons, Nat.ofDigitChars_cons, List.forall_mem_cons]
      have hcomm : 10 * acc + (c.toNat - '0'.toNat) =
          acc * 10 + (c.toNat - '0'.toNat) := by rw [Nat.mul_comm]
      rw [hcomm]
      constructor
      · intro h
        obtain ⟨next, hpush, hrest⟩ := except_bind_eq_ok.mp h
        obtain ⟨hdigit, rfl, hlt⟩ := pushDigit_eq_ok_iff.mp hpush
        obtain ⟨hdigits, hn⟩ := (ih hlt).mp hrest
        exact ⟨⟨hdigit, hdigits⟩, hn⟩
      · rintro ⟨⟨hdigit, hdigits⟩, rfl, hn⟩
        have hlt : acc * 10 + (c.toNat - '0'.toNat) < 2 ^ 64 :=
          lt_of_le_of_lt (le_ofDigitChars digits _) hn
        rw [pushDigit_eq_ok_iff.mpr ⟨hdigit, rfl, hlt⟩]
        exact (ih hlt).mpr ⟨hdigits, rfl, hn⟩

theorem parseU64_eq_ok_iff {text : Text} {n : ℕ} :
    text.parseU64 = .ok n ↔ Numeral text n := by
  have hzero : 0 < 2 ^ 64 := by decide
  fun_cases parseU64 text with
  | case1 => simp [Numeral]
  | case2 =>
      simp only [reduceCtorEq, false_iff]
      rintro ⟨digits, hne, hdigits, htext | htext, _⟩
      · exact absurd (hdigits '+' (htext ▸ List.mem_singleton_self _))
          (by decide)
      · exact hne (List.cons.inj htext).2.symm
  | case3 digits hsigned =>
      rw [foldlM_pushDigit_eq_ok_iff hzero]
      constructor
      · rintro ⟨hdigits, hn⟩
        exact ⟨digits, hsigned, hdigits, .inr rfl, hn⟩
      · rintro ⟨digits', _, hdigits, htext | htext, hn⟩
        · exact absurd (hdigits '+' (htext ▸ List.mem_cons_self))
            (by decide)
        · obtain rfl := (List.cons.inj htext).2
          exact ⟨hdigits, hn⟩
  | case4 _ hempty _ hunsigned =>
      rw [foldlM_pushDigit_eq_ok_iff hzero]
      constructor
      · rintro ⟨hdigits, hn⟩
        exact ⟨text, hempty, hdigits, .inl rfl, hn⟩
      · rintro ⟨digits', _, hdigits, rfl | htext, hn⟩
        · exact ⟨hdigits, hn⟩
        · exact absurd htext (hunsigned digits')

theorem numeral_toDigits {n : ℕ} (h : n < 2 ^ 64) :
    Numeral (Nat.toDigits 10 n) n :=
  ⟨Nat.toDigits 10 n, Nat.toDigits_ne_nil,
    fun _ hc => Nat.isDigit_of_mem_toDigits (by decide) (by decide) hc,
    .inl rfl, Nat.ofDigitChars_ten_toDigits, h⟩

end Text

end ImageReader
