import ImageReader.VmdkExtentDescription

/-!
# The shape of an extent description

The grammar behind the line parser, and what a descriptor written from extent
descriptions is read as:

    line   ::=  blank* mode " " blank* count " " blank* kind rest blank*
    rest   ::=  nothing  |  " " blank* quoted  |  " " blank* quoted blank* offset
    quoted ::=  '"' any text '"'

A filename may hold spaces and double quotes: it ends at the last double quote
of its line, and a number has none.
-/

namespace ImageReader

namespace Text

variable {text rest : Text}

/-- Something, without white space. -/
structure Solid (text : Text) : Prop where
  ne_nil : text ≠ []
  visible : ∀ c ∈ text, isWhitespace c = false

theorem solid_of_all (hne : text ≠ [])
    (hall : (text.all fun c => !isWhitespace c) = true) : text.Solid where
  ne_nil := hne
  visible := by
    intro c hc
    simpa using List.all_eq_true.mp hall c hc

theorem Solid.not_mem (h : text.Solid) {c : Char}
    (hc : isWhitespace c = true) : c ∉ text := by
  intro hmem
  rw [h.visible c hmem] at hc
  contradiction

theorem Solid.trimStart_append (h : text.Solid) (rest : Text) :
    trimStart (text ++ rest) = text ++ rest := by
  obtain ⟨c, tail, rfl⟩ := List.exists_cons_of_ne_nil h.ne_nil
  exact trimStart_of_head (h.visible c List.mem_cons_self) (tail ++ rest)

theorem Solid.exists_last (h : text.Solid) :
    ∃ front c, text = front ++ [c] ∧ isWhitespace c = false :=
  ⟨text.dropLast, text.getLast h.ne_nil,
    (List.dropLast_append_getLast h.ne_nil).symm,
    h.visible _ (List.getLast_mem h.ne_nil)⟩

theorem isWhitespace_of_isDigit {c : Char} (h : c.isDigit = true) :
    isWhitespace c = false := by
  have hrange : 48 ≤ c.toNat ∧ c.toNat ≤ 57 := by
    simpa [Char.isDigit, UInt32.le_iff_toNat_le] using h
  simp only [isWhitespace, Bool.or_eq_false_iff, Bool.and_eq_false_iff,
    decide_eq_false_iff_not]
  omega

theorem Numeral.solid {n : ℕ} (h : Numeral text n) : text.Solid := by
  obtain ⟨digits, hne, hdigits, htext, _⟩ := h
  have hvisible : ∀ c ∈ digits, isWhitespace c = false := fun c hc =>
    isWhitespace_of_isDigit (hdigits c hc)
  rcases htext with rfl | rfl
  · exact ⟨hne, hvisible⟩
  · refine ⟨by simp, List.forall_mem_cons.mpr ⟨by decide, hvisible⟩⟩

/-- A number has no double quote. -/
theorem Numeral.not_mem_quote {n : ℕ} (h : Numeral text n) : '"' ∉ text := by
  obtain ⟨digits, _, hdigits, htext, _⟩ := h
  have hquote : '"' ∉ digits := fun hmem =>
    absurd (hdigits '"' hmem) (by decide)
  rcases htext with rfl | rfl
  · exact hquote
  · simp [hquote]

theorem Blank.not_mem (h : text.Blank) {c : Char}
    (hc : isWhitespace c = false) : c ∉ text := by
  intro hmem
  rw [h c hmem] at hc
  contradiction

end Text

namespace Vmdk

open Text

/-! ## Tokens -/

theorem AccessMode.parse_eq_ok_iff {token : Text} {mode : AccessMode} :
    AccessMode.parse token = .ok mode ↔ token = mode.text := by
  constructor
  · intro h
    unfold AccessMode.parse at h
    split_ifs at h with hno hro hrw
    · rw [← Except.ok.inj h, hno]
    · rw [← Except.ok.inj h, hro]
    · rw [← Except.ok.inj h, hrw]
  · rintro rfl
    cases mode <;> decide

theorem ExtentKind.parse_eq_ok_iff {token : Text} {kind : ExtentKind} :
    ExtentKind.parse token = .ok kind ↔ token = kind.text := by
  constructor
  · intro h
    unfold ExtentKind.parse at h
    split_ifs at h with h₁ h₂ h₃ h₄ h₅ h₆ h₇ h₈ <;>
      · rw [← Except.ok.inj h]
        assumption
  · rintro rfl
    cases kind <;> decide

theorem AccessMode.solid (mode : AccessMode) : mode.text.Solid := by
  cases mode <;> exact Text.solid_of_all (by decide) rfl

theorem ExtentKind.solid (kind : ExtentKind) : kind.text.Solid := by
  cases kind <;> exact Text.solid_of_all (by decide) rfl

theorem nextToken_eq_ok {line s token rest : Text} {reason : String}
    (h : nextToken line reason s = .ok (token, rest)) :
    ∃ gap, Blank gap ∧ s = gap ++ (token ++ ' ' :: rest) := by
  unfold nextToken at h
  cases hsplit : s.trimStart.splitOnce ' ' with
  | none => simp [hsplit] at h
  | some parts =>
      obtain rfl : parts = (token, rest) := by simpa [hsplit] using h
      obtain ⟨gap, hgap, hs⟩ := exists_trimStart s
      exact ⟨gap, hgap, (splitOnce_eq_some_iff.mp hsplit).1 ▸ hs⟩

theorem nextToken_append {line gap token : Text} {reason : String}
    (hgap : Blank gap) (htoken : Solid token) (rest : Text) :
    nextToken line reason (gap ++ (token ++ ' ' :: rest)) =
      .ok (token, rest) := by
  unfold nextToken
  rw [trimStart_append hgap, htoken.trimStart_append,
    splitOnce_append (htoken.not_mem (by decide))]

/-! ## One line -/

/-- What is written behind the kind of an extent. -/
inductive Rest : Option Text → Option ℕ → Text → Prop
  | nothing : Rest none none []
  | quoted {gap : Text} (hgap : Blank gap) (filename : Text) :
      Rest (some filename) none (' ' :: (gap ++ '"' :: (filename ++ ['"'])))
  | offset {gap gap' number : Text} {n : ℕ} (hgap : Blank gap)
      (filename : Text) (hgap' : Blank gap') (hnumber : Numeral number n) :
      Rest (some filename) (some n)
        (' ' :: (gap ++ '"' :: (filename ++ '"' :: (gap' ++ number))))

inductive LineShape : Text → ExtentDescriptionLine → Prop
  | mk {lead gap gap' trail count rest : Text} {edl : ExtentDescriptionLine}
      (mode : AccessMode) (hlead : Blank lead) (hgap : Blank gap)
      (hgap' : Blank gap') (htrail : Blank trail)
      (hcount : Numeral count edl.sectors)
      (hrest : Rest edl.filename edl.offset rest) :
      LineShape
        (lead ++ (mode.text ++ ' ' :: (gap ++ (count ++ ' ' ::
          (gap' ++ (edl.kind.text ++ (rest ++ trail))))))) edl

/-- Behind a kind stands a filename, perhaps with an offset, or nothing; what
is left over is blank. -/
theorem filenameAndOffset_eq_ok {line s : Text} {filename : Option Text}
    {offset : Option ℕ}
    (h : filenameAndOffset line s.trimStart = .ok (filename, offset)) :
    ∃ rest trail, Rest filename offset rest ∧ Blank trail ∧
      ' ' :: s = rest ++ trail := by
  obtain ⟨gap, hgap, hs⟩ := exists_trimStart s
  have hspace : Blank (' ' :: gap) := List.forall_mem_cons.mpr ⟨by decide, hgap⟩
  unfold filenameAndOffset at h
  split_ifs at h with hempty
  · obtain ⟨rfl, rfl⟩ : none = filename ∧ none = offset := by simpa using h
    refine ⟨[], ' ' :: gap, .nothing, hspace, ?_⟩
    rw [hs, hempty, List.append_nil, List.nil_append]
  · cases hsplit : (s.trimStart.stripHead '"').bind (rsplitOnce '"') with
    | none => simp [hsplit] at h
    | some parts =>
        obtain ⟨name, behind⟩ := parts
        obtain ⟨inner, hhead, hinner⟩ := Option.bind_eq_some_iff.mp hsplit
        have htrimmed : s.trimStart = '"' :: (name ++ '"' :: behind) := by
          rw [stripHead_eq_some_iff.mp hhead, eq_of_rsplitOnce hinner]
        obtain ⟨gap', hgap', hbehind⟩ := exists_trimStart behind
        simp only [hsplit] at h
        split_ifs at h with hend
        · obtain ⟨rfl, rfl⟩ : some name = filename ∧ none = offset := by
            simpa using h
          refine ⟨_, gap', .quoted hgap name, hgap', ?_⟩
          rw [hs, htrimmed, hbehind, hend]
          simp
        · cases hparse : behind.trimStart.parseU64 with
          | error e => simp [hparse] at h
          | ok n =>
              obtain ⟨rfl, rfl⟩ : some name = filename ∧ some n = offset := by
                simpa [hparse] using h
              refine ⟨_, [], .offset hgap name hgap'
                (parseU64_eq_ok_iff.mp hparse), blank_nil, ?_⟩
              rw [hs, htrimmed]
              conv_lhs => rw [hbehind]
              simp

/-- A filename ends at the last double quote. -/
theorem quoted_split {behind : Text} (name : Text) (h : '"' ∉ behind) :
    (stripHead '"' ('"' :: (name ++ '"' :: behind))).bind (rsplitOnce '"') =
      some (name, behind) := by
  rw [stripHead_eq_some_iff.mpr rfl]
  exact rsplitOnce_append name h

theorem filenameAndOffset_rest {line s : Text} {filename : Option Text}
    {offset : Option ℕ} (h : Rest filename offset (' ' :: s)) :
    filenameAndOffset line s.trimStart = .ok (filename, offset) := by
  have hquote : isWhitespace '"' = false := by decide
  cases h with
  | @quoted gap hgap name =>
      rw [trimStart_append hgap, trimStart_of_head hquote]
      unfold filenameAndOffset
      simp [@quoted_split [] name, trimStart]
  | @offset gap gap' number n hgap name hgap' hnumber =>
      rw [trimStart_append hgap, trimStart_of_head hquote]
      have hnot : '"' ∉ gap' ++ number := by
        rw [List.mem_append, not_or]
        exact ⟨hgap'.not_mem hquote, hnumber.not_mem_quote⟩
      have htrimmed : trimStart (gap' ++ number) = number := by
        rw [trimStart_append hgap', ← List.append_nil number,
          hnumber.solid.trimStart_append]
      unfold filenameAndOffset
      rw [if_neg (by simp), quoted_split name hnot]
      simp only [htrimmed, parseU64_eq_ok_iff.mpr hnumber]
      rw [if_neg hnumber.solid.ne_nil]

/-- The kind ends at a space or at the end of the line. -/
theorem kindToken_eq {s token behind : Text}
    (h : (splitOnce ' ' s).getD (s, []) = (token, behind)) :
    s = token ∧ behind = [] ∨ s = token ++ ' ' :: behind := by
  cases hsplit : splitOnce ' ' s with
  | none =>
      obtain ⟨rfl, rfl⟩ : s = token ∧ [] = behind := by simpa [hsplit] using h
      exact .inl ⟨rfl, rfl⟩
  | some parts =>
      obtain rfl : parts = (token, behind) := by simpa [hsplit] using h
      exact .inr (splitOnce_eq_some_iff.mp hsplit).1

theorem kindToken_rest {filename : Option Text} {offset : Option ℕ}
    {rest : Text} (h : Rest filename offset rest) (kind : ExtentKind) :
    ∃ s, (splitOnce ' ' (kind.text ++ rest)).getD (kind.text ++ rest, []) =
        (kind.text, s) ∧
      ∀ line, filenameAndOffset line s.trimStart = .ok (filename, offset) := by
  have hkind : ' ' ∉ kind.text := kind.solid.not_mem (by decide)
  cases h with
  | nothing =>
      refine ⟨[], ?_, fun line => by simp [filenameAndOffset, trimStart]⟩
      rw [List.append_nil, splitOnce_eq_none_iff.mpr hkind]
      rfl
  | quoted hgap name =>
      refine ⟨_, ?_, fun line => filenameAndOffset_rest (.quoted hgap name)⟩
      rw [splitOnce_append hkind]
      rfl
  | offset hgap name hgap' hnumber =>
      refine ⟨_, ?_, fun line =>
        filenameAndOffset_rest (.offset hgap name hgap' hnumber)⟩
      rw [splitOnce_append hkind]
      rfl

theorem lineShape_of_parse {line : Text} {edl : ExtentDescriptionLine}
    (h : ExtentDescriptionLine.parse line = .ok edl) : LineShape line edl := by
  obtain ⟨lead, trail, hlead, htrail, hline⟩ := exists_trim line
  unfold ExtentDescriptionLine.parse at h
  obtain ⟨⟨modeToken, s⟩, hmode, h⟩ := except_bind_eq_ok.mp h
  obtain ⟨gap₀, hgap₀, hs₀⟩ := nextToken_eq_ok hmode
  cases haccess : AccessMode.parse modeToken with
  | error e => simp [haccess] at h
  | ok mode =>
  simp only [haccess] at h
  obtain ⟨⟨count, s'⟩, hcount, h⟩ := except_bind_eq_ok.mp h
  obtain ⟨gap, hgap, hs⟩ := nextToken_eq_ok hcount
  cases hsectors : count.parseU64 with
  | error e => simp [hsectors] at h
  | ok sectors =>
  simp only [hsectors] at h
  obtain ⟨gap', hgap', hs'⟩ := exists_trimStart s'
  cases hkindToken :
      (splitOnce ' ' s'.trimStart).getD (s'.trimStart, []) with
  | mk token behind =>
  simp only [hkindToken] at h
  cases hkind : ExtentKind.parse token with
  | error e => simp [hkind] at h
  | ok kind =>
  simp only [hkind] at h
  obtain ⟨⟨filename, offset⟩, hrest, h⟩ := except_bind_eq_ok.mp h
  obtain rfl := Except.ok.inj h
  obtain rfl := AccessMode.parse_eq_ok_iff.mp haccess
  obtain rfl := ExtentKind.parse_eq_ok_iff.mp hkind
  -- what is behind the kind, and what the trimming of the line left there
  obtain ⟨rest, trail', hrest', htrail', hs''⟩ :
      ∃ rest trail', Rest filename offset rest ∧ Blank trail' ∧
        s'.trimStart = kind.text ++ (rest ++ trail') := by
    rcases kindToken_eq hkindToken with ⟨hs'', rfl⟩ | hs''
    · obtain ⟨rfl, rfl⟩ : none = filename ∧ none = offset := by
        simpa [filenameAndOffset, trimStart] using hrest
      exact ⟨[], [], .nothing, blank_nil, by simpa using hs''⟩
    · obtain ⟨rest, trail', hrest', htrail', heq⟩ :=
        filenameAndOffset_eq_ok hrest
      exact ⟨rest, trail', hrest', htrail', heq ▸ hs''⟩
  have hshape : LineShape _ ⟨sectors, kind, filename, offset⟩ :=
    .mk mode (hlead.append hgap₀) hgap hgap' (htrail'.append htrail)
      (parseU64_eq_ok_iff.mp hsectors) hrest'
  rw [hline, hs₀, hs, hs', hs'']
  simpa using hshape

/-- Nothing is trimmed behind a description. -/
theorem Rest.exists_last {filename : Option Text} {offset : Option ℕ}
    {rest : Text} (h : Rest filename offset rest) (kind : ExtentKind) :
    ∃ front c, kind.text ++ rest = front ++ [c] ∧ isWhitespace c = false := by
  cases h with
  | nothing =>
      obtain ⟨front, c, hkind, hc⟩ := kind.solid.exists_last
      exact ⟨front, c, by rw [List.append_nil, hkind], hc⟩
  | @quoted gap hgap name =>
      exact ⟨kind.text ++ ' ' :: (gap ++ '"' :: name), '"', by simp, by decide⟩
  | @offset gap gap' number n hgap name hgap' hnumber =>
      obtain ⟨front, c, rfl, hc⟩ := hnumber.solid.exists_last
      exact ⟨kind.text ++ ' ' :: (gap ++ '"' :: (name ++ '"' :: (gap' ++ front))),
        c, by simp, hc⟩

theorem parse_of_lineShape {line : Text} {edl : ExtentDescriptionLine}
    (h : LineShape line edl) : ExtentDescriptionLine.parse line = .ok edl := by
  obtain @⟨lead, gap, gap', trail, count, rest, edl, mode, hlead, hgap, hgap',
    htrail, hcount, hrest⟩ := h
  have htrim : trim (lead ++ (mode.text ++ ' ' :: (gap ++ (count ++ ' ' ::
      (gap' ++ (edl.kind.text ++ (rest ++ trail))))))) =
      mode.text ++ ' ' :: (gap ++ (count ++ ' ' ::
        (gap' ++ (edl.kind.text ++ rest)))) := by
    obtain ⟨c, tail, hmode⟩ := List.exists_cons_of_ne_nil mode.solid.ne_nil
    obtain ⟨front, c', hend, hc'⟩ := hrest.exists_last edl.kind
    have hc : isWhitespace c = false :=
      mode.solid.visible c (hmode ▸ List.mem_cons_self)
    have hlast : mode.text ++ ' ' :: (gap ++ (count ++ ' ' ::
        (gap' ++ (edl.kind.text ++ rest)))) =
        mode.text ++ ' ' :: (gap ++ (count ++ ' ' :: (gap' ++ front))) ++
          [c'] := by
      rw [hend]
      simp
    rw [← trim_surrounded hlead htrail (by rw [hmode, List.cons_append]) hc
      hlast hc']
    simp
  obtain ⟨s, hkind, hbehind⟩ := kindToken_rest hrest edl.kind
  generalize lead ++ (mode.text ++ ' ' :: (gap ++ (count ++ ' ' ::
    (gap' ++ (edl.kind.text ++ (rest ++ trail)))))) = line at htrim ⊢
  unfold ExtentDescriptionLine.parse
  rw [htrim]
  refine except_bind_eq_ok.mpr ⟨_, nextToken_append blank_nil mode.solid _, ?_⟩
  simp only [AccessMode.parse_eq_ok_iff.mpr rfl]
  refine except_bind_eq_ok.mpr
    ⟨_, nextToken_append hgap hcount.solid _, ?_⟩
  simp only [parseU64_eq_ok_iff.mpr hcount, trimStart_append hgap',
    edl.kind.solid.trimStart_append, hkind,
    ExtentKind.parse_eq_ok_iff.mpr rfl]
  exact except_bind_eq_ok.mpr ⟨_, hbehind line, rfl⟩

theorem parse_eq_ok_iff {line : Text} {edl : ExtentDescriptionLine} :
    ExtentDescriptionLine.parse line = .ok edl ↔ LineShape line edl :=
  ⟨lineShape_of_parse, parse_of_lineShape⟩

/-! ## One description -/

/-- The fields with which a kind of extent is written. -/
inductive ExtentDescriptionInner.Written :
    ExtentDescriptionInner → ExtentKind → Option Text → Option ℕ → Prop
  | flat (filename : Text) (offset : ℕ) :
      Written (.flat filename offset) .flat (some filename) (some offset)
  | seSparse (filename : Text) :
      Written (.seSparse filename) .seSparse (some filename) none
  | seSparseAtZero (filename : Text) :
      Written (.seSparse filename) .seSparse (some filename) (some 0)
  | sparse (filename : Text) :
      Written (.sparse filename) .sparse (some filename) none
  | sparseAtZero (filename : Text) :
      Written (.sparse filename) .sparse (some filename) (some 0)
  | vmfs (filename : Text) :
      Written (.vmfs filename) .vmfs (some filename) none
  | vmfsRaw (filename : Text) :
      Written (.vmfsRaw filename) .vmfsRaw (some filename) none
  | vmfsRdm (filename : Text) :
      Written (.vmfsRdm filename) .vmfsRdm (some filename) none
  | vmfsSparse (filename : Text) :
      Written (.vmfsSparse filename) .vmfsSparse (some filename) none
  | zero : Written .zero .zero none none

theorem ofLine_eq_ok_iff {edl : ExtentDescriptionLine}
    {ed : ExtentDescription} :
    ExtentDescription.ofLine edl = .ok ed ↔
      ed.sectors = edl.sectors ∧
        ed.kind.Written edl.kind edl.filename edl.offset := by
  obtain ⟨sectors, kind, filename, offset⟩ := edl
  obtain ⟨sectors', inner⟩ := ed
  constructor
  · intro h
    -- the ten combinations of a kind and fields which are accepted
    rcases kind <;> rcases filename with _ | filename <;>
      rcases offset with _ | _ | offset <;>
      simp only [ExtentDescription.ofLine, Except.ok.injEq,
        ExtentDescription.mk.injEq, reduceCtorEq] at h
    all_goals
      obtain ⟨rfl, rfl⟩ := h
      exact ⟨rfl, by constructor⟩
  · rintro ⟨rfl, h⟩
    cases h <;> rfl

/-- `line` is the description of an extent. -/
def Describes (ed : ExtentDescription) (line : Text) : Prop :=
  ∃ kind filename offset,
    LineShape line ⟨ed.sectors, kind, filename, offset⟩ ∧
      ed.kind.Written kind filename offset

theorem describes_iff {line : Text} {ed : ExtentDescription} :
    Describes ed line ↔
      ∃ edl, ExtentDescriptionLine.parse line = .ok edl ∧
        ExtentDescription.ofLine edl = .ok ed := by
  constructor
  · rintro ⟨kind, filename, offset, hline, hkind⟩
    exact ⟨_, parse_eq_ok_iff.mpr hline, ofLine_eq_ok_iff.mpr ⟨rfl, hkind⟩⟩
  · rintro ⟨⟨sectors, kind, filename, offset⟩, hline, hed⟩
    obtain ⟨rfl, hkind⟩ := ofLine_eq_ok_iff.mp hed
    exact ⟨kind, filename, offset, parse_eq_ok_iff.mp hline, hkind⟩

/-! ## The lines which count -/

/-- Behind white space, the line has an access mode and a space. -/
def StartsWithMode (line : Text) : Prop :=
  ∃ (lead rest : Text) (mode : AccessMode),
    Blank lead ∧ line = lead ++ (mode.text ++ ' ' :: rest)

theorem isExtentLine_iff {line : Text} :
    isExtentLine line = true ↔ StartsWithMode line := by
  constructor
  · intro h
    unfold isExtentLine at h
    obtain ⟨lead, hlead, hline⟩ := exists_trimStart line
    cases hsplit : line.trimStart.splitOnce ' ' with
    | none => simp [hsplit] at h
    | some parts =>
        obtain ⟨token, rest⟩ := parts
        simp only [hsplit] at h
        cases hmode : AccessMode.parse token with
        | error e => simp [hmode, Except.isOk, Except.toBool] at h
        | ok mode =>
            obtain rfl := AccessMode.parse_eq_ok_iff.mp hmode
            exact ⟨lead, rest, mode, hlead,
              (splitOnce_eq_some_iff.mp hsplit).1 ▸ hline⟩
  · rintro ⟨lead, rest, mode, hlead, rfl⟩
    unfold isExtentLine
    rw [trimStart_append hlead, mode.solid.trimStart_append,
      splitOnce_append (mode.solid.not_mem (by decide))]
    simp only [AccessMode.parse_eq_ok_iff.mpr rfl]
    rfl

theorem Describes.startsWithMode {ed : ExtentDescription} {line : Text}
    (h : Describes ed line) : StartsWithMode line := by
  obtain ⟨kind, filename, offset, hline, _⟩ := h
  cases hline with
  | mk mode hlead => exact ⟨_, _, mode, hlead, rfl⟩

theorem extractFrom_cons {ed : ExtentDescription} {line : Text}
    (h : Describes ed line) (rest : List Text) :
    extractFrom (line :: rest) = (extractFrom rest).map (ed :: ·) := by
  obtain ⟨edl, hparse, hed⟩ := describes_iff.mp h
  rw [extractFrom, if_pos (isExtentLine_iff.mpr h.startsWithMode), hparse]
  change (ExtentDescription.ofLine edl >>= fun ed =>
    extractFrom rest >>= fun eds => pure (ed :: eds)) = _
  rw [hed]
  cases extractFrom rest <;> rfl

theorem extractFrom_cons_other {line : Text} (h : ¬ StartsWithMode line)
    (rest : List Text) : extractFrom (line :: rest) = extractFrom rest := by
  rw [← isExtentLine_iff] at h
  rw [extractFrom, if_neg h]

/-- The descriptions of a descriptor are those of its lines which start with
an access mode; each of these has to be one. -/
theorem extractFrom_eq_ok_iff {lines : List Text}
    {eds : List ExtentDescription} :
    extractFrom lines = .ok eds ↔
      List.Forall₂ Describes eds (lines.filter isExtentLine) := by
  induction lines generalizing eds with
  | nil => cases eds <;> simp [extractFrom]
  | cons line rest ih =>
      by_cases hmode : isExtentLine line = true
      · rw [List.filter_cons_of_pos hmode, List.forall₂_cons_right_iff]
        constructor
        · intro h
          rw [extractFrom, if_pos hmode] at h
          obtain ⟨edl, hparse, h⟩ := except_bind_eq_ok.mp h
          obtain ⟨ed, hed, h⟩ := except_bind_eq_ok.mp h
          obtain ⟨rest', hrest, h⟩ := except_bind_eq_ok.mp h
          exact ⟨ed, rest', describes_iff.mpr ⟨edl, hparse, hed⟩,
            ih.mp hrest, (Except.ok.inj h).symm⟩
        · rintro ⟨ed, rest', hed, hrest, rfl⟩
          rw [extractFrom_cons hed, ih.mpr hrest]
          rfl
      · rw [List.filter_cons_of_neg hmode,
          extractFrom_cons_other (mt isExtentLine_iff.mpr hmode)]
        exact ih

theorem extractFrom_ok_iff {lines : List Text} :
    (∃ eds, extractFrom lines = .ok eds) ↔
      ∀ line ∈ lines, StartsWithMode line → ∃ ed, Describes ed line := by
  simp only [extractFrom_eq_ok_iff, ← isExtentLine_iff]
  induction lines with
  | nil => simp
  | cons line rest ih =>
      rw [List.forall_mem_cons, ← ih]
      by_cases hmode : isExtentLine line = true
      · simp only [List.filter_cons_of_pos hmode, List.forall₂_cons_right_iff,
          hmode, true_implies]
        constructor
        · rintro ⟨_, ed, eds, hed, heds, rfl⟩
          exact ⟨⟨ed, hed⟩, eds, heds⟩
        · rintro ⟨⟨ed, hed⟩, eds, heds⟩
          exact ⟨ed :: eds, ed, eds, hed, heds, rfl⟩
      · simp [List.filter_cons_of_neg hmode, hmode]

/-! ## Written descriptors -/

def quote (filename : Text) : Text := '"' :: (filename ++ ['"'])

def ExtentDescriptionInner.render : ExtentDescriptionInner → Text
  | .flat filename offset =>
      ExtentKind.flat.text ++ ' ' :: (quote filename ++
        ' ' :: Nat.toDigits 10 offset)
  | .seSparse filename => ExtentKind.seSparse.text ++ ' ' :: quote filename
  | .sparse filename => ExtentKind.sparse.text ++ ' ' :: quote filename
  | .vmfs filename => ExtentKind.vmfs.text ++ ' ' :: quote filename
  | .vmfsRaw filename => ExtentKind.vmfsRaw.text ++ ' ' :: quote filename
  | .vmfsRdm filename => ExtentKind.vmfsRdm.text ++ ' ' :: quote filename
  | .vmfsSparse filename => ExtentKind.vmfsSparse.text ++ ' ' :: quote filename
  | .zero => ExtentKind.zero.text

/-- An extent in a descriptor, with single spaces. -/
def ExtentDescription.render (mode : AccessMode) (ed : ExtentDescription) :
    Text :=
  mode.text ++ ' ' :: (Nat.toDigits 10 ed.sectors ++ ' ' :: ed.kind.render)

/-- The numbers are `u64`s, and the filename has no line feed. -/
structure ExtentDescription.WellFormed (ed : ExtentDescription) : Prop where
  sectors : ed.sectors < 2 ^ 64
  offset : ∀ filename offset, ed.kind = .flat filename offset → offset < 2 ^ 64
  filename : ∀ filename, ed.filename = some filename → '\n' ∉ filename

/-- A line of a written descriptor: an extent behind some spaces, or a line
about something else. -/
inductive DescriptorLine where
  | extent (spaces : ℕ) (mode : AccessMode) (ed : ExtentDescription)
  | other (line : Text)

def DescriptorLine.text : DescriptorLine → Text
  | extent spaces mode ed => List.replicate spaces ' ' ++ ed.render mode
  | other line => line

def DescriptorLine.description : DescriptorLine → Option ExtentDescription
  | extent _ _ ed => some ed
  | other _ => none

def DescriptorLine.WellFormed : DescriptorLine → Prop
  | extent _ _ ed => ed.WellFormed
  | other line => '\n' ∉ line ∧ ¬ StartsWithMode line

theorem Rest.single (filename : Text) :
    Rest (some filename) none (' ' :: quote filename) :=
  .quoted blank_nil filename

theorem Rest.single_offset (filename : Text) {offset : ℕ}
    (h : offset < 2 ^ 64) :
    Rest (some filename) (some offset)
      (' ' :: (quote filename ++ ' ' :: Nat.toDigits 10 offset)) := by
  have hrest := Rest.offset blank_nil filename (blank_spaces 1)
    (numeral_toDigits h)
  simpa [quote] using hrest

theorem ExtentDescription.exists_rest {ed : ExtentDescription}
    (h : ed.WellFormed) :
    ∃ kind filename offset rest, Rest filename offset rest ∧
      ed.kind.render = ExtentKind.text kind ++ rest ∧
      ed.kind.Written kind filename offset := by
  obtain ⟨sectors, kind⟩ := ed
  cases kind with
  | flat name offset =>
      exact ⟨_, _, _, _, .single_offset name (h.offset name offset rfl), rfl,
        .flat name offset⟩
  | seSparse name => exact ⟨_, _, _, _, .single name, rfl, .seSparse name⟩
  | sparse name => exact ⟨_, _, _, _, .single name, rfl, .sparse name⟩
  | vmfs name => exact ⟨_, _, _, _, .single name, rfl, .vmfs name⟩
  | vmfsRaw name => exact ⟨_, _, _, _, .single name, rfl, .vmfsRaw name⟩
  | vmfsRdm name => exact ⟨_, _, _, _, .single name, rfl, .vmfsRdm name⟩
  | vmfsSparse name => exact ⟨_, _, _, _, .single name, rfl, .vmfsSparse name⟩
  | zero => exact ⟨_, _, _, _, .nothing, (List.append_nil _).symm, .zero⟩

theorem describes_render {ed : ExtentDescription} (h : ed.WellFormed)
    (spaces : ℕ) (mode : AccessMode) :
    Describes ed (List.replicate spaces ' ' ++ ed.render mode) := by
  obtain ⟨kind, filename, offset, rest, hrest, hrender, hwritten⟩ :=
    ExtentDescription.exists_rest h
  refine ⟨kind, filename, offset, ?_, hwritten⟩
  have hshape : LineShape _ ⟨ed.sectors, kind, filename, offset⟩ :=
    .mk mode (blank_spaces spaces) blank_nil blank_nil blank_nil
      (numeral_toDigits h.sectors) hrest
  unfold ExtentDescription.render
  rw [hrender]
  simpa using hshape

/-- The lines with a line feed between any two of them; one at the end of the
descriptor stands in front of an empty line. -/
def descriptorText : List DescriptorLine → Text
  | [] => []
  | [line] => line.text
  | line :: next :: rest => line.text ++ '\n' :: descriptorText (next :: rest)

theorem not_mem_quoted (kind : ExtentKind) {filename : Text}
    (h : '\n' ∉ filename) : '\n' ∉ kind.text ++ ' ' :: quote filename := by
  have hkind : '\n' ∉ kind.text := kind.solid.not_mem (by decide)
  simp [quote, hkind, h]

theorem not_mem_render {ed : ExtentDescription} (h : ed.WellFormed)
    (mode : AccessMode) : '\n' ∉ ed.render mode := by
  have hmode : '\n' ∉ mode.text := mode.solid.not_mem (by decide)
  have hdigits : ∀ n : ℕ, n < 2 ^ 64 → '\n' ∉ Nat.toDigits 10 n := fun n hn =>
    (numeral_toDigits hn).solid.not_mem (by decide)
  have hkind : '\n' ∉ ed.kind.render := by
    obtain ⟨sectors, kind⟩ := ed
    cases kind with
    | flat name offset =>
        have hquoted := not_mem_quoted .flat (h.filename name rfl)
        have hoffset := hdigits offset (h.offset name offset rfl)
        unfold ExtentDescriptionInner.render
        simp only [List.mem_append, List.mem_cons, not_or] at hquoted ⊢
        exact ⟨hquoted.1, hquoted.2.1, hquoted.2.2, by decide, hoffset⟩
    | zero => exact ExtentKind.zero.solid.not_mem (by decide)
    | seSparse name | sparse name | vmfs name | vmfsRaw name | vmfsRdm name
    | vmfsSparse name => exact not_mem_quoted _ (h.filename name rfl)
  simp [ExtentDescription.render, hmode, hdigits ed.sectors h.sectors, hkind]

/-- Neither a line feed nor a carriage return ends the line of an extent. -/
theorem DescriptorLine.chompCr_extent {ed : ExtentDescription}
    (h : ed.WellFormed) (spaces : ℕ) (mode : AccessMode) :
    chompCr (DescriptorLine.extent spaces mode ed).text =
      (DescriptorLine.extent spaces mode ed).text := by
  obtain ⟨kind, filename, offset, rest, hrest, hrender, _⟩ :=
    ExtentDescription.exists_rest h
  obtain ⟨front, c, hlast, hc⟩ := hrest.exists_last kind
  have htext : (DescriptorLine.extent spaces mode ed).text =
      List.replicate spaces ' ' ++ (mode.text ++ ' ' ::
        (Nat.toDigits 10 ed.sectors ++ ' ' :: front)) ++ [c] := by
    simp [DescriptorLine.text, ExtentDescription.render, hrender, hlast]
  rw [htext]
  refine chompCr_of_last ?_ _
  rintro rfl
  exact absurd hc (by decide)

theorem startsWithMode_of_chompCr {line : Text}
    (h : StartsWithMode (chompCr line)) : StartsWithMode line := by
  obtain ⟨lead, rest, mode, hlead, hline⟩ := h
  obtain ⟨tail, htail⟩ := exists_chompCr line
  refine ⟨lead, rest ++ tail, mode, hlead, ?_⟩
  rw [htail, hline]
  simp

/-- The lines a descriptor line is read as, at the end of the text and in front
of a line feed. -/
theorem DescriptorLine.reads {item : DescriptorLine} (h : item.WellFormed)
    {line : Text} (hline : line = item.text ∨ line = chompCr item.text)
    (rest : List Text) :
    extractFrom (line :: rest) =
      (extractFrom rest).map (item.description.toList ++ ·) := by
  cases item with
  | extent spaces mode ed =>
      have htext : line = (DescriptorLine.extent spaces mode ed).text := by
        rcases hline with rfl | rfl
        · rfl
        · exact DescriptorLine.chompCr_extent h spaces mode
      rw [htext]
      exact extractFrom_cons (describes_render h spaces mode) rest
  | other text =>
      have hother : ¬ StartsWithMode line := by
        rcases hline with rfl | rfl
        · exact h.2
        · exact mt startsWithMode_of_chompCr h.2
      rw [extractFrom_cons_other hother]
      cases extractFrom rest <;> rfl

theorem DescriptorLine.not_mem {item : DescriptorLine}
    (h : item.WellFormed) : '\n' ∉ item.text := by
  cases item with
  | extent spaces mode ed =>
      simp [DescriptorLine.text, not_mem_render h mode]
  | other line => exact h.1

theorem DescriptorLine.reads_last {item : DescriptorLine}
    (h : item.WellFormed) :
    extractFrom item.text.lines = .ok item.description.toList := by
  by_cases hempty : item.text = []
  · cases item with
    | extent spaces mode ed =>
        obtain ⟨lead, rest, mode', _, htext⟩ :=
          (describes_render h spaces mode).startsWithMode
        exact absurd (htext.symm.trans hempty) (by simp)
    | other line =>
        rw [hempty]
        rfl
  · rw [lines_of_not_mem (DescriptorLine.not_mem h) hempty,
      DescriptorLine.reads h (.inl rfl)]
    simp [extractFrom, Except.map]

/-- The extents of a written descriptor come back in their order, whatever
stands between their lines. -/
theorem extract_descriptorText (items : List DescriptorLine)
    (h : ∀ item ∈ items, item.WellFormed) :
    extractExtentDescriptions (descriptorText items) =
      .ok (items.filterMap DescriptorLine.description) := by
  unfold extractExtentDescriptions
  fun_induction descriptorText items with
  | case1 => rfl
  | case2 item =>
      rw [DescriptorLine.reads_last (h item List.mem_cons_self)]
      cases item <;> rfl
  | case3 item next rest ih =>
      have hitem := h item List.mem_cons_self
      rw [lines_append (DescriptorLine.not_mem hitem),
        DescriptorLine.reads hitem (.inr rfl),
        ih fun i hi => h i (List.mem_cons_of_mem item hi)]
      cases item <;> rfl

/-- Written descriptors round-trip, and a descriptor is accepted exactly when
each of its lines which starts with an access mode describes an extent. -/
theorem extractExtentDescriptions_roundTrip :
    (∀ items : List DescriptorLine, (∀ item ∈ items, item.WellFormed) →
      extractExtentDescriptions (descriptorText items) =
        .ok (items.filterMap DescriptorLine.description)) ∧
    ∀ descriptor : Text,
      (∃ eds, extractExtentDescriptions descriptor = .ok eds) ↔
        ∀ line ∈ descriptor.lines, StartsWithMode line →
          ∃ ed, Describes ed line :=
  ⟨extract_descriptorText, fun _ => extractFrom_ok_iff⟩

theorem mixedLines_wellFormed :
    ∀ item ∈ [DescriptorLine.extent 0 .rw ⟨8, .flat "a\" 1".toList 0⟩,
      .other "# x".toList, .extent 2 .rw ⟨4, .zero⟩], item.WellFormed := by
  intro item hitem
  simp only [List.mem_cons, List.not_mem_nil, or_false] at hitem
  rcases hitem with rfl | rfl | rfl
  · refine ⟨by decide, ?_, ?_⟩
    · rintro filename offset h
      obtain ⟨_, rfl⟩ := ExtentDescriptionInner.flat.inj h
      decide
    · rintro filename h
      obtain rfl := Option.some.inj h
      decide
  · refine ⟨by decide, ?_⟩
    rw [← isExtentLine_iff]
    decide
  · exact ⟨by decide, by simp, by simp [ExtentDescription.filename]⟩

/-- A quote within a filename, a foreign line and an indented extent. -/
theorem extractExtentDescriptions_roundTrip_mixed :
    extractExtentDescriptions
        "RW 8 FLAT \"a\" 1\" 0\n# x\n  RW 4 ZERO".toList =
      .ok [⟨8, .flat "a\" 1".toList 0⟩, ⟨4, .zero⟩] :=
  extractExtentDescriptions_roundTrip.1
    [.extent 0 .rw ⟨8, .flat "a\" 1".toList 0⟩, .other "# x".toList,
      .extent 2 .rw ⟨4, .zero⟩]
    mixedLines_wellFormed

/-- A line whose first token is no access mode, for the tab in it, makes the
extraction fail; a line with a sign, or with an offset its kind has none of,
does not. -/
theorem lenient_lines :
    splitOnce ' ' "\tRW x".toList = some ("\tRW".toList, "x".toList) ∧
      (∀ mode, AccessMode.parse "\tRW".toList ≠ .ok mode) ∧
      (∀ eds, extractExtentDescriptions "\tRW x".toList ≠ .ok eds) ∧
      extractExtentDescriptions "RW +5 SPARSE \"a\" 0".toList =
        .ok [⟨5, .sparse "a".toList⟩] := by
  refine ⟨by decide, fun mode => by cases mode <;> decide, ?_, by decide⟩
  intro eds h
  have hnone : extractExtentDescriptions "\tRW x".toList =
      .error ⟨.line "\tRW x".toList, "missing extent kind".toList⟩ := by decide
  rw [hnone] at h
  contradiction

end Vmdk
end ImageReader
