import LedgerClient.Proofs.Toml.Numerals
import LedgerClient.Proofs.Toml.Quotes

/-!
# Lines that are read back

A value that holds no others stands on its line behind a name and an equals sign, and a table of a
list begins with a header on a line of its own.  Each such line is read as one statement, and a
reader of a whole document takes the lines apart one after another: what is added in front of a
document adds statements in front of those of the document.
-/

namespace LedgerClient

namespace Toml

variable {cs rest : List Char} {v : Value} {name : String} {t : Table}

/-!
## Names
-/

/-- A name that stands in a document without quotes. -/
structure IsBareName (name : String) : Prop where
  bare : forall c, c ∈ name.toList -> isBare c = true
  ne_nil : name.toList ≠ []

theorem isBareName_iff :
    IsBareName name <-> (name.toList.all isBare && !name.toList.isEmpty) = true := by
  simp only [Bool.and_eq_true, Bool.not_eq_true', List.all_eq_true, List.isEmpty_eq_false_iff]
  exact ⟨fun h => ⟨h.bare, h.ne_nil⟩, fun h => ⟨h.left, h.right⟩⟩

instance (name : String) : Decidable (IsBareName name) :=
  decidable_of_iff _ isBareName_iff.symm

theorem not_isBlank_of_isBare {c : Char} (h : isBare c = true) : isBlank c = false := by
  have hspace : c ≠ ' ' := ne_of_kind h rfl
  have htab : c ≠ '\t' := ne_of_kind h rfl
  simp [isBlank, hspace, htab]

/-- Characters of which the first is not passed over in front of a line or a value. -/
def IsSolid (cs : List Char) : Prop :=
  exists c tail, cs = c :: tail ∧ isBlank c = false

theorem IsSolid.skipBlanks_append (h : IsSolid cs) (rest : List Char) :
    skipBlanks (cs ++ rest) = cs ++ rest := by
  rcases h with ⟨c, tail, rfl, hc⟩
  simp [skipBlanks, hc]

theorem IsBareName.exists_cons (h : IsBareName name) :
    exists c tail, name.toList = c :: tail ∧ isBare c = true := by
  cases hname : name.toList with
  | nil => exact (h.ne_nil hname).elim
  | cons c tail => exact ⟨c, tail, rfl, h.bare c (by rw [hname]; exact List.mem_cons_self)⟩

theorem IsBareName.isSolid (h : IsBareName name) : IsSolid name.toList := by
  rcases h.exists_cons with ⟨c, tail, hname, hc⟩
  exact ⟨c, tail, hname, not_isBlank_of_isBare hc⟩

theorem simpleName_append (h : IsBareName name)
    (hrest : forall c, rest.head? = some c -> isBare c = false) :
    simpleName (name.toList ++ rest) = .ok (name, rest) := by
  rcases takeWhile_append_stop h.bare hrest with ⟨hfront, hback⟩
  have hempty : name.toList.isEmpty = false := by simpa using h.ne_nil
  rcases h.exists_cons with ⟨c, tail, hname, hc⟩
  rw [simpleName]
  · simp only [hfront, hback, hempty, String.ofList_toList, Bool.false_eq_true, if_false]
  · intro more hmore
    rw [hname] at hmore
    exact ne_of_kind hc rfl (List.cons.inj hmore).left
  · intro more hmore
    rw [hname] at hmore
    exact ne_of_kind hc rfl (List.cons.inj hmore).left

theorem key_append (h : IsBareName name)
    (hrest : forall c, rest.head? = some c -> isBare c = false)
    (hdot : (skipBlanks rest).head? ≠ some '.') :
    key (name.toList ++ rest) = .ok ({ parents := [], name := name }, skipBlanks rest) := by
  rw [key, maxDepth, dottedName, h.isSolid.skipBlanks_append, simpleName_append h hrest]
  dsimp only
  split
  case h_1 hsplit =>
    rw [hsplit] at hdot
    exact (hdot rfl).elim
  case h_2 => rfl

/-!
## Values
-/

/-- A value that the writer puts on a line: none that holds others, and no date. -/
inductive IsSimple : Value -> Prop where
  | integer (n : Int) : IsSimple (.integer n)
  | float {x : Binary64} : x.IsNumber -> IsSimple (.float x)
  | flag (b : Bool) : IsSimple (.flag b)
  | text (s : String) : IsSimple (.text s)
  | empty : IsSimple (.list [])

/-- Characters that are read as a value at the end of a line. -/
structure Denotes (cs : List Char) (v : Value) : Prop where
  solid : IsSolid cs
  value : forall rest, Toml.value maxDepth (cs ++ '\n' :: rest) = .ok (v, '\n' :: rest)

theorem value_plain {c : Char} (hlist : c ≠ '[') (htable : c ≠ '\x7b') :
    Toml.value maxDepth (c :: cs) = plainValue (c :: cs) := by
  rw [maxDepth, Toml.value]
  · exact fun _ hmore => hlist (List.cons.inj hmore).left
  · exact fun _ hmore => htable (List.cons.inj hmore).left

theorem plainValue_of_word {c : Char} (hdouble : c ≠ '"') (hsingle : c ≠ '\'') :
    plainValue (c :: cs) = word (c :: cs) := by
  rw [plainValue]
  · exact fun _ hmore => hdouble (List.cons.inj hmore).left
  · exact fun _ hmore => hsingle (List.cons.inj hmore).left

theorem endsWord_newline (rest : List Char) : EndsWord ('\n' :: rest) := by
  intro c hc
  cases hc
  rfl

theorem denotes_of_word (h : IsWord cs)
    (hword : forall rest, EndsWord rest -> word (cs ++ rest) = .ok (v, rest)) : Denotes cs v := by
  cases cs with
  | nil => exact (h.ne_nil rfl).elim
  | cons c cs =>
      have hc := h.shown c List.mem_cons_self
      constructor
      case solid =>
        have hspace : c ≠ ' ' := ne_of_kind hc rfl
        have htab : c ≠ '\t' := ne_of_kind hc rfl
        exact ⟨c, cs, rfl, by simp [isBlank, hspace, htab]⟩
      case value =>
        intro rest
        rw [List.cons_append, value_plain (ne_of_kind hc rfl) (ne_of_kind hc rfl),
          plainValue_of_word (ne_of_kind hc rfl) (ne_of_kind hc rfl),
          ← List.cons_append]
        exact hword _ (endsWord_newline rest)

theorem head?_quoted (s : String) :
    exists c tail, (quoted s).toList = c :: tail ∧ (c = '"' ∨ c = '\'') := by
  rw [toList_quoted]
  cases Quoting.forText s.toList with
  | basic => exact ⟨_, _, rfl, .inl rfl⟩
  | literal => exact ⟨_, _, rfl, .inr rfl⟩
  | basicBlock => exact ⟨_, _, rfl, .inl rfl⟩
  | literalBlock => exact ⟨_, _, rfl, .inr rfl⟩

theorem denotes_quoted (s : String) : Denotes (quoted s).toList (.text s) := by
  rcases head?_quoted s with ⟨c, tail, htext, hc⟩
  have hquoted : forall rest, quotedText (c :: (tail ++ '\n' :: rest)) =
      .ok (s.toList, '\n' :: rest) := by
    intro rest
    rw [← List.cons_append, ← htext]
    exact quotedText_quoted s (by simp) (by simp)
  rw [htext]
  rcases hc with rfl | rfl
  all_goals
    refine ⟨⟨_, _, rfl, rfl⟩, fun rest => ?_⟩
    rw [List.cons_append, value_plain (by decide) (by decide), plainValue, hquoted]
    simp [Except.map]

theorem denotes_empty : Denotes ['[', ']'] (.list []) := by
  refine ⟨⟨_, _, rfl, rfl⟩, fun rest => ?_⟩
  rfl

/-- An integer of a document is one that the format has room for. -/
def Value.Writable (v : Value) : Prop :=
  forall n, v = .integer n -> isInteger n = true

theorem written_of_simple (h : IsSimple v) (hv : v.Writable) :
    exists s, v.written = some s ∧ Denotes s.toList v := by
  cases h with
  | integer n =>
      have hn := hv n rfl
      exact ⟨toString n, if_pos hn,
        denotes_of_word (isWord_toString n) fun rest hrest =>
          word_append (isWord_toString n) hrest (number?_toString hn)⟩
  | float hx =>
      exact ⟨_, rfl,
        denotes_of_word (isWord_floatText hx) fun rest hrest =>
          word_append (isWord_floatText hx) hrest (number?_floatText hx)⟩
  | flag b => exact ⟨_, rfl, denotes_of_word (isWord_flag b) fun rest => word_flag b⟩
  | text s => exact ⟨_, rfl, denotes_quoted s⟩
  | empty => exact ⟨_, rfl, denotes_empty⟩

theorem written_eq_none (h : ¬v.Writable) : v.written = none := by
  unfold Value.Writable at h
  push Not at h
  rcases h with ⟨n, rfl, hn⟩
  exact if_neg hn

/-!
## Statements
-/

/-- The statement of a field. -/
def assignment (f : String × Value) : Statement :=
  .assign { parents := [], name := f.1 } f.2

/-- The statement at the front of a table of a list. -/
def heading (name : String) : Statement :=
  .listHeader { parents := [], name := name }

theorem expect_self (c : Char) (cs : List Char) : expect c (c :: cs) = .ok cs := by
  simp [expect]

theorem statement_assignment (hname : IsBareName name) {text : List Char} (hv : Denotes text v)
    (rest : List Char) :
    statement (name.toList ++ ' ' :: '=' :: ' ' :: (text ++ '\n' :: rest)) =
      .ok (assignment (name, v), rest) := by
  rcases hname.exists_cons with ⟨c, tail, hcons, hc⟩
  have hkey : key (name.toList ++ ' ' :: '=' :: ' ' :: (text ++ '\n' :: rest)) =
      .ok ({ parents := [], name := name }, '=' :: ' ' :: (text ++ '\n' :: rest)) := by
    apply key_append hname
    · intro d hd
      cases hd
      rfl
    · intro hd
      cases hd
  have hblank : skipBlanks (' ' :: (text ++ '\n' :: rest)) = text ++ '\n' :: rest :=
    hv.solid.skipBlanks_append _
  rw [hcons] at hkey
  rw [hcons, statement]
  · simp only [hkey, expect_self, hblank, hv.value, bind, Except.bind]
    rfl
  · intro more hmore
    exact ne_of_kind hc rfl (List.cons.inj hmore).left
  · intro more hmore
    exact ne_of_kind hc rfl (List.cons.inj hmore).left

theorem statement_heading (hname : IsBareName name) (rest : List Char) :
    statement ('[' :: '[' :: (name.toList ++ ']' :: ']' :: '\n' :: rest)) =
      .ok (heading name, rest) := by
  have hkey : key (name.toList ++ ']' :: ']' :: '\n' :: rest) =
      .ok ({ parents := [], name := name }, ']' :: ']' :: '\n' :: rest) := by
    apply key_append hname
    · intro d hd
      cases hd
      rfl
    · intro hd
      cases hd
  rw [statement]
  simp only [hkey, expect_self, bind, Except.bind]
  rfl

/-- Characters are read as a row of statements, however much fuel there is. -/
def Reads (cs : List Char) (ss : List Statement) : Prop :=
  forall fuel, cs.length < fuel -> statements fuel cs = .ok ss

/-- Characters in front of a document add a row of statements to it. -/
def Adds (cs : List Char) (ss : List Statement) : Prop :=
  forall rest more, Reads rest more -> Reads (cs ++ rest) (ss ++ more)

theorem Adds.nil : Adds [] [] :=
  fun _ _ h => h

theorem Adds.append {ds : List Char} {ss ts : List Statement} (h : Adds cs ss) (h' : Adds ds ts) :
    Adds (cs ++ ds) (ss ++ ts) := by
  intro rest more hrest
  rw [List.append_assoc, List.append_assoc]
  exact h _ _ (h' rest more hrest)

theorem reads_nil : Reads [] [] := by
  intro fuel hfuel
  cases fuel with
  | zero => cases hfuel
  | succ fuel => rfl

theorem Adds.reads {ss : List Statement} (h : Adds cs ss) : Reads cs ss := by
  have hall := h [] [] reads_nil
  rwa [List.append_nil, List.append_nil] at hall

theorem adds_newline : Adds ['\n'] [] := by
  intro rest more hrest fuel hfuel
  cases fuel with
  | zero => cases hfuel
  | succ fuel => exact hrest fuel (Nat.lt_of_succ_lt_succ hfuel)

/-- A character that a statement begins with. -/
structure Opens (c : Char) : Prop where
  noBlank : isBlank c = false
  noComment : c ≠ '#'
  noBreak : c ≠ '\n'
  noReturn : c ≠ '\r'

theorem statements_cons {c : Char} (hc : Opens c) (fuel : Nat) :
    statements (fuel + 1) (c :: cs) = do
      let (s, rest) ← statement (c :: cs)
      return s :: (← statements fuel rest) := by
  have hsolid : skipBlanks (c :: cs) = c :: cs := by
    simp [skipBlanks, hc.noBlank]
  rw [statements, hsolid]
  split
  case h_1 hsplit => cases hsplit
  case h_2 hsplit => exact (hc.noComment (List.cons.inj hsplit).left).elim
  case h_3 hsplit => exact (hc.noBreak (List.cons.inj hsplit).left).elim
  case h_4 hsplit => exact (hc.noReturn (List.cons.inj hsplit).left).elim
  case h_5 => rfl

theorem adds_statement {c : Char} {s : Statement} (hc : Opens c)
    (h : forall rest, statement (c :: (cs ++ rest)) = .ok (s, rest)) : Adds (c :: cs) [s] := by
  intro rest more hrest fuel hfuel
  cases fuel with
  | zero => cases hfuel
  | succ fuel =>
      have hmore : rest.length < fuel := by
        rw [List.cons_append, List.length_cons, List.length_append] at hfuel
        omega
      rw [List.cons_append, statements_cons hc, h]
      simp only [hrest fuel hmore, bind, Except.bind]
      rfl

theorem opens_of_isBare {c : Char} (h : isBare c = true) : Opens c := by
  constructor
  case noBlank => exact not_isBlank_of_isBare h
  all_goals exact ne_of_kind h rfl

end Toml
end LedgerClient
