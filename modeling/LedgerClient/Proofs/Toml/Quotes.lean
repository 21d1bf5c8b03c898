import LedgerClient.Toml.Document

/-!
# Quoted texts that are read back

A text is written between the quotes that suit it best, and each of the four ways to quote it has a
reader of its own.  Between double quotes every character stands for itself or is escaped; between
three quotes at most two of the same kind stand in a row, so the closing ones are the first three
that no quote of the text runs into.
-/

namespace LedgerClient

namespace Toml

variable {c d : Char} {cs rest : List Char}

theorem prepend_none (r : Except Fault (List Char × List Char)) : prepend none r = r := by
  cases r with
  | error fault => rfl
  | ok read => rfl

/-!
## Escapes
-/

/-- How a character is written that cannot stand for itself between double quotes. -/
inductive IsEscape (c : Char) : List Char -> Prop where
  | named {d : Char} : escaped? d = some c -> IsEscape c ['\\', d]
  | coded : c.toNat < 128 -> IsEscape c (codeEscape c)

theorem IsEscape.exists_eq_cons {text : List Char} (h : IsEscape c text) :
    exists tail, text = '\\' :: tail := by
  cases h with
  | named _ => exact ⟨_, rfl⟩
  | coded _ => exact ⟨_, rfl⟩

/-- A reader of texts that takes escapes apart. -/
structure Unescapes (multiline : Bool) (read : Escape → Parser (List Char)) : Prop where
  outside : forall rest, read .outside ('\\' :: rest) = read .begun rest
  begun : forall {c rest d escape}, c ≠ '\r' ->
    Escape.begun.step multiline c = .ok (d, escape) ->
      read .begun (c :: rest) = prepend d (read escape rest)
  code : forall {left value c rest d escape},
    (Escape.code left value).step multiline c = .ok (d, escape) ->
      read (.code left value) (c :: rest) = prepend d (read escape rest)

theorem unescapes_basicText : Unescapes false basicText := by
  constructor
  case outside => exact fun rest => rfl
  case begun =>
    intro c rest d escape _ hstep
    rw [basicText]
    · simp only [hstep]
    all_goals simp
  case code =>
    intro left value c rest d escape hstep
    rw [basicText]
    · simp only [hstep]
    all_goals simp

theorem unescapes_basicLines : Unescapes true basicLines := by
  constructor
  case outside => exact fun rest => rfl
  case begun =>
    intro c rest d escape hc hstep
    rw [basicLines]
    · simp only [hstep]
    · exact fun _ hreturn => (hc hreturn).elim
  case code =>
    intro left value c rest d escape hstep
    rw [basicLines]
    simp only [hstep]

theorem step_begun (multiline : Bool) (h : escaped? d = some c) :
    Escape.begun.step multiline d = .ok (some c, .outside) := by
  have hshort : d ≠ 'u' := by
    rintro rfl
    cases h
  have hlong : d ≠ 'U' := by
    rintro rfl
    cases h
  simp [Escape.step, hshort, hlong, h]

/-- The digit of a code, in upper case. -/
def codeDigit (n : Nat) : Char :=
  n.digitChar.toUpper

theorem hexValue?_codeDigit : forall n, n < 16 -> hexValue? (codeDigit n) = some n := by
  decide

theorem codeEscape_of_lt :
    forall n, n < 128 ->
      codeEscape (Char.ofNat n) =
        ['\\', 'u', '0', '0', codeDigit (n / 16), codeDigit (n % 16)] := by
  decide +kernel

theorem ofCode?_toNat (c : Char) : ofCode? c.toNat = some c := by
  exact dif_pos c.valid

namespace Unescapes

variable {multiline : Bool} {read : Escape → Parser (List Char)}

theorem read_coded (h : Unescapes multiline read) (hc : c.toNat < 128) :
    read .outside (codeEscape c ++ rest) = prepend (some c) (read .outside rest) := by
  have hescape := codeEscape_of_lt c.toNat hc
  rw [Char.ofNat_toNat] at hescape
  have hhigh := hexValue?_codeDigit (c.toNat / 16) (by omega)
  have hlow := hexValue?_codeDigit (c.toNat % 16) (by omega)
  have hlast : (Escape.code 1 (c.toNat / 16)).step multiline (codeDigit (c.toNat % 16)) =
      .ok (some c, .outside) := by
    simp [Escape.step, hlow, Nat.div_add_mod, ofCode?_toNat]
  have hfirst : (Escape.code 2 0).step multiline (codeDigit (c.toNat / 16)) =
      .ok (none, .code 1 (c.toNat / 16)) := by
    simp [Escape.step, hhigh]
  have hu : Escape.begun.step multiline 'u' = .ok (none, .code 4 0) := rfl
  have hthree : (Escape.code 4 0).step multiline '0' = .ok (none, .code 3 0) := rfl
  have htwo : (Escape.code 3 0).step multiline '0' = .ok (none, .code 2 0) := rfl
  simp only [hescape, List.cons_append, List.nil_append, h.outside,
    h.begun (by decide) hu, h.code hthree, h.code htwo, h.code hfirst, h.code hlast, prepend_none]

/-- A character is read back from its escape. -/
theorem read_escape (h : Unescapes multiline read) {text : List Char} (hescape : IsEscape c text) :
    read .outside (text ++ rest) = prepend (some c) (read .outside rest) := by
  cases hescape with
  | coded hc => exact h.read_coded hc
  | @named d hd =>
      have hreturn : d ≠ '\r' := by
        rintro rfl
        cases hd
      rw [List.cons_append, List.cons_append, List.nil_append, h.outside,
        h.begun hreturn (step_begun multiline hd)]

end Unescapes

/-- A character stands for itself between double quotes. -/
structure IsPlain (block : Bool) (c : Char) : Prop where
  noEscape : c ≠ '\\'
  noReturn : c ≠ '\r'
  shown : isPrintable c = true ∨ (block = true ∧ c = '\n')

theorem escape_cases (block : Bool) (c : Char) :
    (escape block c = [c] ∧ IsPlain block c) ∨ IsEscape c (escape block c) := by
  by_cases hnamed : c ∈ ['\x08', '\t', '\x0c', '\r', '\\']
  · right
    simp only [List.mem_cons, List.not_mem_nil, or_false] at hnamed
    rcases hnamed with rfl | rfl | rfl | rfl | rfl
    all_goals exact .named rfl
  · simp only [List.mem_cons, List.not_mem_nil, or_false, not_or] at hnamed
    rcases hnamed with ⟨hback, htab, hfeed, hreturn, hslash⟩
    by_cases hline : c = '\n'
    · rw [hline]
      cases block with
      | true => exact .inl ⟨rfl, by decide, by decide, .inr ⟨rfl, rfl⟩⟩
      | false => exact .inr (.named rfl)
    · by_cases hcontrol : c.toNat < 32 ∨ c.toNat = 127
      · right
        have hescape : escape block c = codeEscape c := by
          simp [escape, hback, htab, hline, hfeed, hreturn, hslash, hcontrol]
        rw [hescape]
        exact .coded (by omega)
      · left
        refine ⟨?_, hslash, hreturn, .inl ?_⟩
        · simp [escape, hback, htab, hline, hfeed, hreturn, hslash, hcontrol]
        · simp only [isPrintable, Bool.or_eq_true, Bool.and_eq_true, decide_eq_true_eq, bne_iff_ne]
          omega

/-!
## Texts on one line
-/

theorem basicText_plain (hplain : IsPlain false c) (hquote : c ≠ '"') :
    basicText .outside (c :: rest) = prepend (some c) (basicText .outside rest) := by
  have hshown : isPrintable c = true := by simpa using hplain.shown
  rw [basicText]
  · rw [if_pos hshown]
  · exact fun hc => (hquote hc).elim
  · exact fun hc => (hplain.noEscape hc).elim

theorem basicText_escaped (row : Nat) (cs rest : List Char) :
    basicText .outside (escaped false row cs ++ '"' :: rest) = .ok (cs, rest) := by
  induction cs generalizing row with
  | nil => rfl
  | cons c cs ih =>
      have hread : forall text, IsEscape c text ->
          basicText .outside (text ++ (escaped false 0 cs ++ '"' :: rest)) =
            .ok (c :: cs, rest) := by
        intro text htext
        rw [unescapes_basicText.read_escape htext, ih]
        rfl
      rw [escaped]
      by_cases hquote : c = '"'
      · rw [if_pos hquote, if_neg (by simp)]
        exact hread ['\\', c] (.named (by rw [hquote]; rfl))
      · rw [if_neg hquote, List.append_assoc]
        rcases escape_cases false c with ⟨hself, hplain⟩ | hescape
        · rw [hself, List.singleton_append, basicText_plain hplain hquote, ih]
          rfl
        · exact hread _ hescape

theorem literalText_append (hcs : forall c, c ∈ cs -> c ≠ '\'' ∧ isPrintable c = true) :
    literalText (cs ++ '\'' :: rest) = .ok (cs, rest) := by
  induction cs with
  | nil => rfl
  | cons c cs ih =>
      rw [List.forall_mem_cons] at hcs
      rw [List.cons_append, literalText, if_pos hcs.left.right, ih hcs.right]
      · rfl
      · exact fun hc => (hcs.left.left hc).elim

/-!
## Texts on several lines
-/

/-- How many times a character stands at the front. -/
def run (c : Char) (cs : List Char) : Nat :=
  (cs.takeWhile (· == c)).length

theorem leading_eq (c : Char) (cs : List Char) : leading c cs = min 6 (run c cs) := by
  rw [leading, run, ← List.take_takeWhile, List.length_take]

theorem run_cons_self (c : Char) (cs : List Char) : run c (c :: cs) = run c cs + 1 := by
  simp [run]

theorem run_cons_of_ne (h : d ≠ c) (cs : List Char) : run c (d :: cs) = 0 := by
  simp [run, h]

theorem basicLines_plain (hplain : IsPlain true c) (hquote : c ≠ '"') :
    basicLines .outside (c :: rest) = prepend (some c) (basicLines .outside rest) := by
  have hshown : (isPrintable c || c == '\n') = true := by simpa using hplain.shown
  rw [basicLines]
  · simp [hquote, hshown]
  all_goals simp [hplain.noEscape, hplain.noReturn]

/-- Quotes at the front that are the next of a row are the text's own, or some of it are and the
closing ones follow. -/
def Spare (row quotes : Nat) : Prop :=
  quotes + row ≤ 2 ∨ 3 ≤ quotes ∧ quotes + row ≤ 5

theorem Spare.succ {row quotes : Nat} (h : Spare (row + 1) quotes) : Spare row (quotes + 1) := by
  unfold Spare at *
  omega

theorem run_marks (hrest : rest.head? ≠ some c) : run c (c :: c :: c :: rest) = 3 := by
  have hnone : run c rest = 0 := by
    cases rest with
    | nil => rfl
    | cons d rest => exact run_cons_of_ne (fun hd => hrest (by rw [hd]; rfl)) rest
  rw [run_cons_self, run_cons_self, run_cons_self, hnone]

theorem spare_marks (hrest : rest.head? ≠ some c) {row : Nat} (hrow : row ≤ 2) :
    Spare row (run c (c :: c :: c :: rest)) := by
  rw [run_marks hrest]
  exact .inr ⟨Nat.le_refl 3, by omega⟩

theorem spare_of_ne (h : d ≠ c) {row : Nat} (hrow : row ≤ 2) (cs : List Char) :
    Spare row (run c (d :: cs)) := by
  rw [run_cons_of_ne h]
  exact .inl (by omega)

/-- Between double quotes at most two stand in a row without an escape. -/
theorem spare_escaped (hrest : rest.head? ≠ some '"') {row : Nat} (hrow : row ≤ 2)
    (cs : List Char) : Spare row (run '"' (escaped true row cs ++ '"' :: '"' :: '"' :: rest)) := by
  induction cs generalizing row with
  | nil => exact spare_marks hrest hrow
  | cons c cs ih =>
      rw [escaped]
      by_cases hquote : c = '"'
      · rw [if_pos hquote]
        by_cases hfew : row < 2
        · rw [if_pos ⟨rfl, hfew⟩, hquote, List.cons_append, run_cons_self]
          exact (ih (by omega)).succ
        · rw [if_neg (by simp [hfew])]
          exact spare_of_ne (by decide) hrow _
      · rw [if_neg hquote]
        rcases escape_cases true c with ⟨hself, _⟩ | hescape
        · rw [hself]
          exact spare_of_ne hquote hrow _
        · rcases hescape.exists_eq_cons with ⟨tail, htail⟩
          rw [htail]
          exact spare_of_ne (by decide) hrow _

theorem spare_of_longestRow (hrest : rest.head? ≠ some c) {row : Nat}
    (hrow : Quoting.longestRow c row cs ≤ 2) :
    Spare row (run c (cs ++ c :: c :: c :: rest)) := by
  induction cs generalizing row with
  | nil => exact spare_marks hrest hrow
  | cons d cs ih =>
      rw [Quoting.longestRow] at hrow
      by_cases hd : d = c
      · rw [if_pos hd] at hrow
        rw [hd, List.cons_append, run_cons_self]
        exact (ih hrow).succ
      · rw [if_neg hd] at hrow
        exact spare_of_ne hd (Nat.le_trans (Nat.le_max_left _ _) hrow) _

theorem leading_of_spare {row : Nat} (h : Spare (row + 1) (run c rest)) :
    ¬5 < leading c (c :: rest) ∧ leading c (c :: rest) ≠ 3 := by
  unfold Spare at h
  rw [leading_eq, run_cons_self]
  omega

theorem leading_marks (hrest : rest.head? ≠ some c) : leading c (c :: c :: c :: rest) = 3 := by
  rw [leading_eq, run_marks hrest]
  rfl

theorem basicLines_quote {row : Nat} (h : Spare (row + 1) (run '"' rest)) :
    basicLines .outside ('"' :: rest) = prepend (some '"') (basicLines .outside rest) := by
  rw [basicLines]
  · simp [leading_of_spare h]
  all_goals simp

theorem basicLines_marks (hrest : rest.head? ≠ some '"') :
    basicLines .outside ('"' :: '"' :: '"' :: rest) = .ok ([], rest) := by
  rw [basicLines]
  · simp [leading_marks hrest]
  all_goals simp

theorem basicLines_escaped (hrest : rest.head? ≠ some '"') {row : Nat} (hrow : row ≤ 2)
    (cs : List Char) :
    basicLines .outside (escaped true row cs ++ '"' :: '"' :: '"' :: rest) = .ok (cs, rest) := by
  induction cs generalizing row with
  | nil => exact basicLines_marks hrest
  | cons c cs ih =>
      have hread : forall text, IsEscape c text ->
          basicLines .outside (text ++ (escaped true 0 cs ++ '"' :: '"' :: '"' :: rest)) =
            .ok (c :: cs, rest) := by
        intro text htext
        rw [unescapes_basicLines.read_escape htext, ih (Nat.zero_le 2)]
        rfl
      rw [escaped]
      by_cases hquote : c = '"'
      · rw [if_pos hquote]
        by_cases hfew : row < 2
        · rw [if_pos ⟨rfl, hfew⟩, hquote, List.cons_append,
            basicLines_quote (spare_escaped hrest hfew cs), ih hfew]
          rfl
        · rw [if_neg (by simp [hfew])]
          exact hread ['\\', c] (.named (by rw [hquote]; rfl))
      · rw [if_neg hquote, List.append_assoc]
        rcases escape_cases true c with ⟨hself, hplain⟩ | hescape
        · rw [hself, List.singleton_append, basicLines_plain hplain hquote, ih (Nat.zero_le 2)]
          rfl
        · exact hread _ hescape

/-- A character that may stand between three single quotes. -/
def IsOpen (c : Char) : Prop :=
  c ≠ '\r' ∧ (isPrintable c = true ∨ c = '\n')

theorem literalLines_open (hopen : IsOpen c) (hquote : c ≠ '\'') :
    literalLines (c :: rest) = prepend (some c) (literalLines rest) := by
  have hshown : (isPrintable c || c == '\n') = true := by simpa using hopen.right
  rw [literalLines]
  · simp [hquote, hshown]
  · exact fun _ hreturn => (hopen.left hreturn).elim

theorem literalLines_quote {row : Nat} (h : Spare (row + 1) (run '\'' rest)) :
    literalLines ('\'' :: rest) = prepend (some '\'') (literalLines rest) := by
  rw [literalLines]
  · simp [leading_of_spare h]
  · simp

theorem literalLines_marks (hrest : rest.head? ≠ some '\'') :
    literalLines ('\'' :: '\'' :: '\'' :: rest) = .ok ([], rest) := by
  rw [literalLines]
  · simp [leading_marks hrest]
  · simp

theorem literalLines_append (hrest : rest.head? ≠ some '\'') {row : Nat}
    (hrow : Quoting.longestRow '\'' row cs ≤ 2) (hcs : forall c, c ∈ cs -> IsOpen c) :
    literalLines (cs ++ '\'' :: '\'' :: '\'' :: rest) = .ok (cs, rest) := by
  induction cs generalizing row with
  | nil => exact literalLines_marks hrest
  | cons c cs ih =>
      rw [List.forall_mem_cons] at hcs
      rw [Quoting.longestRow] at hrow
      by_cases hquote : c = '\''
      · rw [if_pos hquote] at hrow
        rw [hquote, List.cons_append, literalLines_quote (spare_of_longestRow hrest hrow),
          ih hrow hcs.right]
        rfl
      · rw [if_neg hquote] at hrow
        rw [List.cons_append, literalLines_open hcs.left hquote,
          ih (Nat.le_trans (Nat.le_max_right _ _) hrow) hcs.right]
        rfl

/-!
## Quoted texts
-/

theorem skipFirstBreak_eq_self (h : forall c, cs.head? = some c -> c ≠ '\n' ∧ c ≠ '\r') :
    skipFirstBreak cs = cs := by
  cases cs with
  | nil => rfl
  | cons c cs =>
      have hc := h c rfl
      rw [skipFirstBreak]
      · simp [hc.left]
      · simp [hc.right]

/-- What is asked of a text for each way to quote it. -/
inductive Quoting.Suits (cs : List Char) : Quoting -> Prop where
  | basic : Suits cs .basic
  | literal : cs ≠ [] -> (forall c, c ∈ cs -> c ≠ '\'' ∧ isPrintable c = true) -> Suits cs .literal
  | basicBlock : Suits cs .basicBlock
  | literalBlock : (forall c, c ∈ cs -> IsOpen c) -> Quoting.longestRow '\'' 0 cs ≤ 2 ->
      Suits cs .literalBlock

theorem isOpen_of_needsEscape_eq_false (h : Quoting.needsEscape c = false) : IsOpen c := by
  have hcontrol : (c.toNat < 32 -> c ≠ '\t' -> c = '\n') ∧ c.toNat ≠ 127 := by
    simpa [Quoting.needsEscape] using h
  constructor
  · rintro rfl
    exact absurd (hcontrol.left (by decide) (by decide)) (by decide)
  · by_cases hline : c = '\n'
    · exact .inr hline
    · left
      by_cases htab : c = '\t'
      · simp [isPrintable, htab]
      · have hlarge : 32 ≤ c.toNat :=
          Nat.le_of_not_lt fun hsmall => hline (hcontrol.left hsmall htab)
        simp [isPrintable, hlarge, hcontrol.right]

theorem Quoting.suits_forText (cs : List Char) : (Quoting.forText cs).Suits cs := by
  have hopen : (!cs.any needsEscape) = true -> forall c, c ∈ cs -> IsOpen c := by
    intro hplain c hc
    rw [Bool.not_eq_true', List.any_eq_false] at hplain
    exact isOpen_of_needsEscape_eq_false (Bool.eq_false_iff.mpr (hplain c hc))
  unfold Quoting.forText
  dsimp only
  split
  case isTrue => exact .basic
  case isFalse hbasic =>
    split
    case isTrue hliteral =>
      simp only [Bool.and_eq_true] at hliteral
      rcases hliteral with ⟨⟨hplain, hlines⟩, hquote⟩
      apply Suits.literal
      · rintro rfl
        exact hbasic rfl
      · intro c hc
        refine ⟨?_, ?_⟩
        · rintro rfl
          simp [hc] at hquote
        · rcases (hopen hplain c hc).right with hshown | hline
          · exact hshown
          · simp [hline ▸ hc] at hlines
    case isFalse =>
      split
      case isTrue => exact .basicBlock
      case isFalse =>
        split
        case isTrue hblock =>
          simp only [Bool.and_eq_true, decide_eq_true_eq] at hblock
          exact .literalBlock (hopen hblock.left) hblock.right
        case isFalse =>
          split
          case isTrue => exact .basicBlock
          case isFalse => exact .basic

theorem head?_escaped_append {rest : List Char} (cs : List Char) (h : '\n' ∉ cs) :
    forall c, (escaped true 0 cs ++ '"' :: rest).head? = some c -> c ≠ '\n' ∧ c ≠ '\r' := by
  intro c hc
  cases cs with
  | nil =>
      cases hc
      decide
  | cons d cs =>
      rw [escaped] at hc
      by_cases hquote : d = '"'
      · rw [if_pos hquote, if_pos (by decide), hquote] at hc
        cases hc
        decide
      · rw [if_neg hquote] at hc
        rcases escape_cases true d with ⟨hself, hplain⟩ | hescape
        · rw [hself] at hc
          cases hc
          refine ⟨?_, hplain.noReturn⟩
          rintro rfl
          exact h List.mem_cons_self
        · rcases hescape.exists_eq_cons with ⟨tail, htail⟩
          rw [htail] at hc
          cases hc
          decide

/-- The line end that a text of several lines begins with after three quotes. -/
def firstBreak (cs : List Char) : List Char :=
  if cs.contains '\n' then ['\n'] else []

theorem skipFirstBreak_firstBreak {more : List Char}
    (h : '\n' ∉ cs -> forall c, more.head? = some c -> c ≠ '\n' ∧ c ≠ '\r') :
    skipFirstBreak (firstBreak cs ++ more) = more := by
  unfold firstBreak
  by_cases hlines : '\n' ∈ cs
  · rw [if_pos (List.contains_iff_mem.mpr hlines)]
    rfl
  · rw [if_neg (fun hcontains => hlines (List.contains_iff_mem.mp hcontains)), List.nil_append]
    exact skipFirstBreak_eq_self (h hlines)

/-- How a text is written, by the way it is quoted. -/
theorem toList_quoted (s : String) :
    (quoted s).toList =
      match Quoting.forText s.toList with
      | .basic => '"' :: (escaped false 0 s.toList ++ ['"'])
      | .literal => '\'' :: (s.toList ++ ['\''])
      | .basicBlock =>
          '"' :: '"' :: '"' :: (firstBreak s.toList ++ (escaped true 0 s.toList ++ ['"', '"', '"']))
      | .literalBlock =>
          '\'' :: '\'' :: '\'' :: (firstBreak s.toList ++ (s.toList ++ ['\'', '\'', '\''])) := by
  unfold quoted firstBreak
  cases hquoting : Quoting.forText s.toList with
  | basic => simp [hquoting, Quoting.mark, Quoting.isBlock]
  | literal => simp [hquoting, Quoting.mark, Quoting.isBlock]
  | basicBlock =>
      by_cases hlines : '\n' ∈ s.toList
      · simp [hquoting, Quoting.mark, Quoting.isBlock, hlines]
      · simp [hquoting, Quoting.mark, Quoting.isBlock, hlines]
  | literalBlock =>
      by_cases hlines : '\n' ∈ s.toList
      · simp [hquoting, Quoting.mark, Quoting.isBlock, hlines]
      · simp [hquoting, Quoting.mark, Quoting.isBlock, hlines]

theorem quotedText_basic (h : forall more, cs ≠ '"' :: '"' :: more) :
    quotedText ('"' :: cs) = basicText .outside cs := by
  rw [quotedText]
  exact h

theorem quotedText_literal (h : forall more, cs ≠ '\'' :: '\'' :: more) :
    quotedText ('\'' :: cs) = literalText cs := by
  rw [quotedText]
  exact h

theorem escaped_append_ne (cs : List Char) (hrest : rest.head? ≠ some '"') (more : List Char) :
    escaped false 0 cs ++ '"' :: rest ≠ '"' :: '"' :: more := by
  cases cs with
  | nil =>
      intro h
      cases h
      exact hrest rfl
  | cons c cs =>
      rw [escaped]
      by_cases hquote : c = '"'
      · rw [if_pos hquote, if_neg (by simp)]
        intro h
        cases h
      · rw [if_neg hquote]
        rcases escape_cases false c with ⟨hself, _⟩ | hescape
        · rw [hself]
          intro h
          exact hquote (List.cons.inj h).left
        · rcases hescape.exists_eq_cons with ⟨tail, htail⟩
          rw [htail]
          intro h
          cases h

theorem literal_append_ne (hne : cs ≠ [])
    (hcs : forall c, c ∈ cs -> c ≠ '\'' ∧ isPrintable c = true) (rest more : List Char) :
    cs ++ '\'' :: rest ≠ '\'' :: '\'' :: more := by
  cases cs with
  | nil => exact (hne rfl).elim
  | cons c cs =>
      intro h
      exact (hcs c List.mem_cons_self).left (List.cons.inj h).left

theorem head?_open_append (hcs : forall c, c ∈ cs -> IsOpen c) (h : '\n' ∉ cs) :
    forall c, (cs ++ '\'' :: rest).head? = some c -> c ≠ '\n' ∧ c ≠ '\r' := by
  intro c hc
  cases cs with
  | nil =>
      cases hc
      decide
  | cons d cs =>
      cases hc
      refine ⟨?_, (hcs c List.mem_cons_self).left⟩
      rintro rfl
      exact h List.mem_cons_self

/-- Every text is read back from what is written for it, whatever follows it that is no quote. -/
theorem quotedText_quoted (s : String) (hbasic : rest.head? ≠ some '"')
    (hliteral : rest.head? ≠ some '\'') :
    quotedText ((quoted s).toList ++ rest) = .ok (s.toList, rest) := by
  have hsuits := Quoting.suits_forText s.toList
  rw [toList_quoted]
  cases hquoting : Quoting.forText s.toList with
  | basic =>
      simp only [List.cons_append, List.append_assoc, List.nil_append]
      rw [quotedText_basic (escaped_append_ne s.toList hbasic), basicText_escaped]
  | literal =>
      rw [hquoting] at hsuits
      cases hsuits with
      | literal hne hcs =>
          simp only [List.cons_append, List.append_assoc, List.nil_append]
          rw [quotedText_literal (literal_append_ne hne hcs rest), literalText_append hcs]
  | basicBlock =>
      simp only [List.cons_append, List.append_assoc, List.nil_append]
      rw [quotedText, skipFirstBreak_firstBreak (head?_escaped_append s.toList),
        basicLines_escaped hbasic (Nat.zero_le 2)]
  | literalBlock =>
      rw [hquoting] at hsuits
      cases hsuits with
      | literalBlock hcs hrow =>
          simp only [List.cons_append, List.append_assoc, List.nil_append]
          rw [quotedText, skipFirstBreak_firstBreak (head?_open_append hcs),
            literalLines_append hliteral hrow hcs]

end Toml
end LedgerClient
