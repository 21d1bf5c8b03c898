import LedgerClient.Proofs.Toml.Lines

/-!
# Documents that are read back

A document of fields with values that hold no others, and of lists of tables of such fields, is
written as a row of statements.  Read one by one these make up the same document: each field goes to
the end of the table that was opened last, and each header opens the next table of its list.  There
is nothing else that keeps such a document from being written than an integer out of range.
-/

namespace LedgerClient

namespace Toml

variable {cs : List Char} {v : Value} {name : String} {t : Table}

/-!
## Writing
-/

/-- Parts of a document that are written one after another. -/
theorem exists_mapM {α β : Type} {items : List α} {write : α → Option β} {chars : β → List Char}
    {ss : α → List Statement}
    (h : forall a, a ∈ items -> exists b, write a = some b ∧ Adds (chars b) (ss a)) :
    exists bs, items.mapM write = some bs ∧ Adds (bs.flatMap chars) (items.flatMap ss) := by
  induction items with
  | nil => exact ⟨[], List.mapM_nil, .nil⟩
  | cons a items ih =>
      rw [List.forall_mem_cons] at h
      rcases h.left with ⟨b, hb, hadds⟩
      rcases ih h.right with ⟨bs, hbs, hmore⟩
      refine ⟨b :: bs, ?_, hadds.append hmore⟩
      rw [List.mapM_cons, hb, hbs]
      rfl

theorem mapM_eq_none {α β : Type} {items : List α} {write : α → Option β} {a : α} (ha : a ∈ items)
    (h : write a = none) : items.mapM write = none := by
  induction items with
  | nil => cases ha
  | cons b items ih =>
      rw [List.mapM_cons]
      rcases List.mem_cons.mp ha with rfl | hmore
      · rw [h]
        rfl
      · rw [ih hmore]
        cases write b <;> rfl

theorem mapM_map_eq_some {α β : Type} {write : α → β} {read : β → Option α}
    (h : forall a, read (write a) = some a) (items : List α) :
    (items.map write).mapM read = some items := by
  induction items with
  | nil => rfl
  | cons a items ih =>
      rw [List.map_cons, List.mapM_cons, h, ih]
      rfl

/-- Fields that are written with one line each. -/
structure AreFields (t : Table) : Prop where
  named : forall f, f ∈ t -> IsBareName f.1
  simple : forall f, f ∈ t -> IsSimple f.2
  distinct : (t.map Prod.fst).Nodup

/-- No integer is out of the range of the format. -/
def Table.Writable (t : Table) : Prop :=
  forall f, f ∈ t -> f.2.Writable

theorem exists_fieldText {f : String × Value} (hname : IsBareName f.1) (hf : IsSimple f.2)
    (hwritable : f.2.Writable) :
    exists s, fieldText f = some s ∧ Adds s.toList [assignment f] := by
  rcases written_of_simple hf hwritable with ⟨text, htext, hdenotes⟩
  rcases hname.exists_cons with ⟨c, tail, hcons, hc⟩
  refine ⟨f.1 ++ " = " ++ text ++ "\n", ?_, ?_⟩
  · rw [fieldText, htext]
    rfl
  · have hchars : (f.1 ++ " = " ++ text ++ "\n").toList =
        c :: (tail ++ ' ' :: '=' :: ' ' :: (text.toList ++ ['\n'])) := by
      simp [hcons]
    rw [hchars]
    apply adds_statement (opens_of_isBare hc)
    intro rest
    have hread := statement_assignment hname hdenotes rest
    rw [hcons] at hread
    simpa using hread

theorem fieldText_eq_none {f : String × Value} (h : ¬f.2.Writable) : fieldText f = none := by
  rw [fieldText, written_eq_none h]
  rfl

/-- The statements of one table of a list. -/
def element (name : String) (t : Table) : List Statement :=
  heading name :: t.flatMap fun f => [assignment f]

theorem exists_elementText (hname : IsBareName name) (ht : AreFields t) (hwritable : t.Writable) :
    exists s, elementText name t = some s ∧ Adds s.toList (element name t) := by
  have hfields : forall f, f ∈ t -> exists s, fieldText f = some s ∧ Adds s.toList [assignment f] :=
    fun f hf => exists_fieldText (ht.named f hf) (ht.simple f hf) (hwritable f hf)
  rcases exists_mapM hfields with ⟨texts, htexts, hadds⟩
  refine ⟨"\n[[" ++ name ++ "]]\n" ++ String.join texts, ?_, ?_⟩
  · rw [elementText, htexts]
    rfl
  · have hchars : ("\n[[" ++ name ++ "]]\n" ++ String.join texts).toList =
        ['\n'] ++ ('[' :: ('[' :: (name.toList ++ [']', ']', '\n'])) ++
          texts.flatMap String.toList) := by
      simp [String.toList_join]
    have hheading : Adds ('[' :: '[' :: (name.toList ++ [']', ']', '\n'])) [heading name] := by
      apply adds_statement ⟨rfl, by decide, by decide, by decide⟩
      intro rest
      simpa using statement_heading hname rest
    rw [hchars]
    exact adds_newline.append (hheading.append hadds)

theorem elementText_eq_none (h : ¬t.Writable) : elementText name t = none := by
  unfold Table.Writable at h
  push Not at h
  rcases h with ⟨f, hf, hwritable⟩
  rw [elementText, mapM_eq_none hf (fieldText_eq_none hwritable)]
  rfl

/-- A table of fields and, behind them, lists of tables. -/
def document (plain : Table) (lists : List (String × List Table)) : Table :=
  plain ++ lists.map fun l => (l.1, .list (l.2.map .table))

/-- The fields and the tables have names that are written without quotes and differ from one
another, and no list is empty. -/
structure IsDocument (plain : Table) (lists : List (String × List Table)) : Prop where
  fields : AreFields plain
  named : forall l, l ∈ lists -> IsBareName l.1
  filled : forall l, l ∈ lists -> l.2 ≠ []
  elements : forall l, l ∈ lists -> forall t, t ∈ l.2 -> AreFields t
  distinct : (plain.map Prod.fst ++ lists.map Prod.fst).Nodup

theorem tables?_of_simple (h : IsSimple v) : tables? v = none := by
  cases h <;> rfl

theorem tables?_list {ts : List Table} (h : ts ≠ []) :
    tables? (.list (ts.map .table)) = some ts := by
  cases ts with
  | nil => exact (h rfl).elim
  | cons t ts =>
      rw [List.map_cons, tables?, ← List.map_cons]
      apply mapM_map_eq_some
      intro u
      rfl

variable {plain : Table} {lists : List (String × List Table)}

/-- The statements of a document. -/
def statementsOf (plain : Table) (lists : List (String × List Table)) : List Statement :=
  (plain.flatMap fun f => [assignment f]) ++ lists.flatMap fun l => l.2.flatMap (element l.1)

theorem IsDocument.filter_eq (h : IsDocument plain lists) :
    (document plain lists).filter (fun f => (tables? f.2).isNone) = plain := by
  have hplain : plain.filter (fun f => (tables? f.2).isNone) = plain := by
    rw [List.filter_eq_self]
    intro f hf
    rw [tables?_of_simple (h.fields.simple f hf)]
    rfl
  have hlists : (lists.map fun l => (l.1, Value.list (l.2.map .table))).filter
      (fun f => (tables? f.2).isNone) = [] := by
    rw [List.filter_eq_nil_iff]
    intro f hf
    rcases List.mem_map.mp hf with ⟨l, hl, rfl⟩
    rw [tables?_list (h.filled l hl)]
    exact Bool.false_ne_true
  rw [document, List.filter_append, hplain, hlists, List.append_nil]

theorem IsDocument.flatMap_eq (h : IsDocument plain lists) :
    ((document plain lists).flatMap fun f => ((tables? f.2).getD []).flatMap (element f.1)) =
      lists.flatMap fun l => l.2.flatMap (element l.1) := by
  have hplain : (plain.flatMap fun f => ((tables? f.2).getD []).flatMap (element f.1)) = [] := by
    rw [List.flatMap_eq_nil_iff]
    intro f hf
    rw [tables?_of_simple (h.fields.simple f hf)]
    rfl
  rw [document, List.flatMap_append, hplain, List.nil_append, List.flatMap_map]
  apply List.flatMap_congr
  intro l hl
  rw [tables?_list (h.filled l hl)]
  rfl

/-- No integer of a document is out of the range of the format. -/
def Writable (plain : Table) (lists : List (String × List Table)) : Prop :=
  plain.Writable ∧ forall l, l ∈ lists -> forall t, t ∈ l.2 -> t.Writable

theorem IsDocument.exists_render (h : IsDocument plain lists) (hwritable : Writable plain lists) :
    exists text, render (document plain lists) = some text ∧
      Adds text.toList (statementsOf plain lists) := by
  have hfields : forall f, f ∈ plain ->
      exists s, fieldText f = some s ∧ Adds s.toList [assignment f] :=
    fun f hf => exists_fieldText (h.fields.named f hf) (h.fields.simple f hf) (hwritable.left f hf)
  have htables : forall f, f ∈ document plain lists ->
      exists texts, ((tables? f.2).getD []).mapM (elementText f.1) = some texts ∧
        Adds (texts.flatMap String.toList) (((tables? f.2).getD []).flatMap (element f.1)) := by
    intro f hf
    rcases List.mem_append.mp hf with hplain | hlist
    · rw [tables?_of_simple (h.fields.simple f hplain)]
      exact ⟨[], rfl, .nil⟩
    · rcases List.mem_map.mp hlist with ⟨l, hl, rfl⟩
      rw [tables?_list (h.filled l hl)]
      apply exists_mapM
      intro t ht
      exact exists_elementText (h.named l hl) (h.elements l hl t ht) (hwritable.right l hl t ht)
  rcases exists_mapM hfields with ⟨texts, htexts, hadds⟩
  rcases exists_mapM htables with ⟨blocks, hblocks, hmore⟩
  refine ⟨String.join texts ++ String.join blocks.flatten, ?_, ?_⟩
  · rw [render, h.filter_eq, htexts, hblocks]
    rfl
  · rw [h.flatMap_eq] at hmore
    rw [String.toList_append, String.toList_join, String.toList_join, List.flatten_eq_flatMap,
      List.flatMap_assoc]
    exact hadds.append hmore

theorem IsDocument.render_eq_none (h : IsDocument plain lists) (hwritable : ¬Writable plain lists) :
    render (document plain lists) = none := by
  rw [render, h.filter_eq]
  by_cases hplain : plain.Writable
  · have hlists : ¬forall l, l ∈ lists -> forall t, t ∈ l.2 -> t.Writable :=
      fun hall => hwritable ⟨hplain, hall⟩
    push Not at hlists
    rcases hlists with ⟨l, hl, t, ht, hunwritable⟩
    have hmem : (l.1, Value.list (l.2.map .table)) ∈ document plain lists :=
      List.mem_append_right plain (List.mem_map.mpr ⟨l, hl, rfl⟩)
    have htables :
        ((tables? (Value.list (l.2.map .table))).getD []).mapM (elementText l.1) = none := by
      rw [tables?_list (h.filled l hl)]
      exact mapM_eq_none ht (elementText_eq_none hunwritable)
    rw [mapM_eq_none hmem htables]
    cases plain.mapM fieldText <;> rfl
  · unfold Table.Writable at hplain
    push Not at hplain
    rcases hplain with ⟨f, hf, hunwritable⟩
    rw [mapM_eq_none hf (fieldText_eq_none hunwritable)]
    rfl

/-!
## Reading
-/

theorem not_mem_of_nodup {names more : List String} (h : (names ++ name :: more).Nodup) :
    name ∉ names := by
  intro hmem
  exact (List.nodup_append.mp h).right.right _ hmem _ List.mem_cons_self rfl

/-- A table under construction with the fields of a table. -/
def leaves (t : Table) : Branches :=
  t.map fun f => (f.1, .value f.2)

theorem names_leaves (t : Table) : (leaves t).map Prod.fst = t.map Prod.fst := by
  rw [leaves, List.map_map]
  rfl

variable {bs inner : Branches}

theorem get?_eq_none (h : name ∉ bs.map Prod.fst) : bs.get? name = none := by
  unfold Branches.get?
  rw [List.find?_eq_none.mpr]
  · rfl
  · intro b hb hname
    exact h (List.mem_map.mpr ⟨b, hb, by simpa using hname⟩)

theorem get?_append_self (h : name ∉ bs.map Prod.fst) (tree : Tree) :
    Branches.get? (bs ++ [(name, tree)]) name = some tree := by
  have hnone := get?_eq_none h
  unfold Branches.get? at *
  rw [List.find?_append]
  rw [Option.map_eq_none_iff] at hnone
  rw [hnone]
  simp

theorem put_append_self (h : name ∉ bs.map Prod.fst) (tree new : Tree) :
    Branches.put name new (bs ++ [(name, tree)]) = bs ++ [(name, new)] := by
  induction bs with
  | nil => simp [Branches.put]
  | cons b bs ih =>
      rw [List.map_cons, List.mem_cons, not_or] at h
      rw [List.cons_append, Branches.put, ih h.right, if_neg]
      · rfl
      · simpa using fun hb => h.left hb.symm

theorem onLast_append (change : Branches → Except Fault Branches) (elements : List Branches)
    (last : Branches) :
    Branches.onLast change (elements ++ [last]) =
      (change last).map fun new => elements ++ [new] := by
  induction elements with
  | nil => rfl
  | cons first elements ih =>
      have hcons : forall others, others ≠ [] -> Branches.onLast change (first :: others) =
          (Branches.onLast change others).map (first :: ·) := by
        intro others hothers
        rw [Branches.onLast]
        exact hothers
      rw [List.cons_append, hcons _ (by simp), ih]
      cases change last <;> rfl

/-- Where the table stands that values are read into: a change of it there is a change of the whole
that is `plug`. -/
def Stands (path : List String) (plug : Branches → Branches) : Prop :=
  forall change inner,
    Branches.inTable change path (plug inner) = (change inner).map plug

theorem stands_root : Stands [] id := by
  intro change inner
  show change inner = (change inner).map id
  cases change inner <;> rfl

theorem stands_last (h : name ∉ bs.map Prod.fst) (elements : List Branches) :
    Stands [name] fun inner => bs ++ [(name, .tables (elements ++ [inner]))] := by
  intro change inner
  have hchange : Branches.inTable change [] = change := by
    funext branches
    rfl
  rw [Branches.inTable, get?_append_self h]
  dsimp only
  rw [hchange, onLast_append]
  cases change inner with
  | error fault => rfl
  | ok new =>
      show Except.ok (Branches.put name _ _) = _
      rw [put_append_self h]
      rfl

theorem apply_assignment {path : List String} {plug : Branches → Branches} (h : Stands path plug)
    {f : String × Value} (hfresh : f.1 ∉ inner.map Prod.fst) :
    Draft.apply { branches := plug inner, current := path } (assignment f) =
      .ok { branches := plug (inner ++ leaves [f]), current := path } := by
  have hdefine : Branches.assign f.1 f.2 [] inner = .ok (inner ++ leaves [f]) := by
    rw [Branches.assign, Branches.define, get?_eq_none hfresh]
    rfl
  have hplace := h (Branches.assign f.1 f.2 []) inner
  rw [hdefine] at hplace
  simp only [assignment, Draft.apply, hplace, bind, Except.bind, Except.map]
  rfl

/-- Fields of different names are added one by one to the table that they are read into. -/
theorem fold_assignments {path : List String} {plug : Branches → Branches} (h : Stands path plug)
    (inner : Branches) (hdistinct : (inner.map Prod.fst ++ t.map Prod.fst).Nodup) :
    (t.flatMap fun f => [assignment f]).foldlM Draft.apply
        { branches := plug inner, current := path } =
      .ok { branches := plug (inner ++ leaves t), current := path } := by
  induction t generalizing inner with
  | nil =>
      rw [leaves, List.map_nil, List.append_nil]
      rfl
  | cons f t ih =>
      have hfresh : f.1 ∉ inner.map Prod.fst := not_mem_of_nodup hdistinct
      have hmore : ((inner ++ leaves [f]).map Prod.fst ++ t.map Prod.fst).Nodup := by
        simpa [leaves] using hdistinct
      have hleaves : inner ++ leaves (f :: t) = inner ++ leaves [f] ++ leaves t := by
        simp [leaves]
      rw [hleaves, List.flatMap_cons, List.singleton_append, List.foldlM_cons,
        apply_assignment h hfresh]
      exact ih _ hmore

/-- What has been read once a list of tables has grown to some tables, at first to none. -/
def grown (bs : Branches) (name : String) (elements : List Branches) : Branches :=
  if elements = [] then bs else bs ++ [(name, .tables elements)]

theorem grown_append (elements : List Branches) (last : Branches) :
    grown bs name (elements ++ [last]) = bs ++ [(name, .tables (elements ++ [last]))] :=
  if_neg (by simp)

theorem openElement_grown (h : name ∉ bs.map Prod.fst) (elements : List Branches) :
    Branches.openElement name (grown bs name elements) =
      .ok (bs ++ [(name, .tables (elements ++ [[]]))]) := by
  rw [Branches.openElement, grown]
  split_ifs with hempty
  · rw [get?_eq_none h, hempty]
    rfl
  · rw [get?_append_self h]
    dsimp only
    rw [put_append_self h]

theorem fold_element (h : name ∉ bs.map Prod.fst) (ht : (t.map Prod.fst).Nodup)
    (elements : List Branches) (path : List String) :
    (element name t).foldlM Draft.apply { branches := grown bs name elements, current := path } =
      .ok { branches := grown bs name (elements ++ [leaves t]), current := [name] } := by
  have hopen : Draft.apply { branches := grown bs name elements, current := path } (heading name) =
      .ok { branches := bs ++ [(name, .tables (elements ++ [[]]))], current := [name] } := by
    simp only [heading, Draft.apply, Branches.inTable, openElement_grown h, bind, Except.bind]
    rfl
  have hfields := fold_assignments (t := t) (stands_last h elements) [] (by simpa using ht)
  rw [element, List.foldlM_cons, hopen, grown_append]
  exact hfields

theorem fold_elements (h : name ∉ bs.map Prod.fst) {ts : List Table}
    (hts : forall t, t ∈ ts -> (t.map Prod.fst).Nodup) (elements : List Branches)
    (path : List String) :
    exists last, (ts.flatMap (element name)).foldlM Draft.apply
        { branches := grown bs name elements, current := path } =
      .ok { branches := grown bs name (elements ++ ts.map leaves), current := last } := by
  induction ts generalizing elements path with
  | nil =>
      refine ⟨path, ?_⟩
      rw [List.map_nil, List.append_nil]
      rfl
  | cons t ts ih =>
      rw [List.forall_mem_cons] at hts
      rcases ih hts.right (elements ++ [leaves t]) [name] with ⟨last, hlast⟩
      refine ⟨last, ?_⟩
      rw [List.flatMap_cons, List.foldlM_append, fold_element h hts.left]
      show List.foldlM _ _ _ = _
      rw [hlast, List.map_cons, List.append_assoc]
      rfl

/-- The lists of a document as they have been read. -/
def branchesOf (lists : List (String × List Table)) : Branches :=
  lists.map fun l => (l.1, .tables (l.2.map leaves))

theorem fold_lists (hfilled : forall l, l ∈ lists -> l.2 ≠ [])
    (hts : forall l, l ∈ lists -> forall t, t ∈ l.2 -> (t.map Prod.fst).Nodup)
    (hdistinct : (bs.map Prod.fst ++ lists.map Prod.fst).Nodup) (path : List String) :
    exists last, (lists.flatMap fun l => l.2.flatMap (element l.1)).foldlM Draft.apply
        { branches := bs, current := path } =
      .ok { branches := bs ++ branchesOf lists, current := last } := by
  induction lists generalizing bs path with
  | nil =>
      refine ⟨path, ?_⟩
      rw [branchesOf, List.map_nil, List.append_nil]
      rfl
  | cons l lists ih =>
      rw [List.forall_mem_cons] at hfilled hts
      have hfresh : l.1 ∉ bs.map Prod.fst := not_mem_of_nodup hdistinct
      rcases fold_elements hfresh hts.left [] path with ⟨middle, hmiddle⟩
      have hgrown : grown bs l.1 ([] ++ l.2.map leaves) = bs ++ branchesOf [l] := by
        rw [List.nil_append, grown, if_neg]
        · rfl
        · simpa using hfilled.left
      have hmore : ((bs ++ branchesOf [l]).map Prod.fst ++ lists.map Prod.fst).Nodup := by
        simpa [branchesOf] using hdistinct
      rcases ih hfilled.right hts.right hmore middle with ⟨last, hlast⟩
      refine ⟨last, ?_⟩
      rw [hgrown] at hmiddle
      rw [List.flatMap_cons, List.foldlM_append]
      have hstart : grown bs l.1 [] = bs := if_pos rfl
      rw [hstart] at hmiddle
      rw [hmiddle]
      show List.foldlM _ _ _ = _
      rw [hlast]
      simp [branchesOf]

theorem toTable_append (bs others : Branches) :
    Branches.toTable (bs ++ others) = Branches.toTable bs ++ Branches.toTable others := by
  induction bs with
  | nil => rfl
  | cons b bs ih =>
      rw [List.cons_append, Branches.toTable, Branches.toTable, ih, List.cons_append]

theorem toTable_leaves (t : Table) : Branches.toTable (leaves t) = t := by
  induction t with
  | nil => rfl
  | cons f t ih =>
      show (f.1, Tree.toValue (.value f.2)) :: Branches.toTable (leaves t) = f :: t
      rw [ih, Tree.toValue]

theorem toTables_leaves (ts : List Table) :
    Branches.toTables (ts.map leaves) = ts.map .table := by
  induction ts with
  | nil => rfl
  | cons t ts ih =>
      rw [List.map_cons, Branches.toTables, ih, toTable_leaves, List.map_cons]

theorem toTable_branchesOf (lists : List (String × List Table)) :
    Branches.toTable (branchesOf lists) = lists.map fun l => (l.1, .list (l.2.map .table)) := by
  induction lists with
  | nil => rfl
  | cons l lists ih =>
      show (l.1, Tree.toValue (.tables (l.2.map leaves))) :: Branches.toTable (branchesOf lists) = _
      rw [ih, Tree.toValue, toTables_leaves]
      rfl

/-- The statements of a document make up the document. -/
theorem IsDocument.fold_statements (h : IsDocument plain lists) :
    exists d, (statementsOf plain lists).foldlM Draft.apply Draft.empty = .ok d ∧
      Branches.toTable d.branches = document plain lists := by
  have hplain := fold_assignments (t := plain) stands_root [] (by simpa using h.fields.distinct)
  have hnames : ((leaves plain).map Prod.fst ++ lists.map Prod.fst).Nodup := by
    rw [names_leaves]
    exact h.distinct
  have hts : forall l, l ∈ lists -> forall t, t ∈ l.2 -> (t.map Prod.fst).Nodup :=
    fun l hl t ht => (h.elements l hl t ht).distinct
  rcases fold_lists h.filled hts hnames [] with ⟨last, hlast⟩
  refine ⟨{ branches := leaves plain ++ branchesOf lists, current := last }, ?_, ?_⟩
  · rw [statementsOf, List.foldlM_append]
    have hstart : Draft.empty = { branches := id [], current := [] } := rfl
    rw [hstart, hplain]
    exact hlast
  · rw [toTable_append, toTable_leaves, toTable_branchesOf, document]

theorem statements_mark (fuel : Nat) (rest : List Char) :
    statements (fuel + 1) ('\ufeff' :: rest) = .error .unexpected := by
  have hkey : key ('\ufeff' :: rest) = .error .unexpected := rfl
  have hstatement : statement ('\ufeff' :: rest) = .error .unexpected := by
    rw [statement, hkey]
    · rfl
    · intro more hmore
      cases hmore
    · intro more hmore
      cases hmore
  rw [statements_cons ⟨rfl, by decide, by decide, by decide⟩, hstatement]
  rfl

/-- What can be read does not begin with a mark of the order of octets. -/
theorem Reads.skipMark_eq {ss : List Statement} (h : Reads cs ss) : skipMark cs = cs := by
  cases cs with
  | nil => rfl
  | cons c cs =>
      rw [skipMark, if_neg]
      intro hc
      have hmark : c = '\ufeff' := Char.toNat_inj.mp hc
      have hread := h (cs.length + 2) (Nat.lt_succ_self _)
      rw [hmark, statements_mark] at hread
      cases hread

theorem IsDocument.parse_eq (h : IsDocument plain lists) {text : String}
    (htext : Reads text.toList (statementsOf plain lists)) :
    parse text = .ok (document plain lists) := by
  rcases h.fold_statements with ⟨d, hd, htable⟩
  simp only [parse, htext.skipMark_eq, htext _ (Nat.lt_succ_self _), bind, Except.bind, hd, htable]
  rfl

/-- A document can be written if and only if none of its integers is out of range. -/
theorem IsDocument.render_eq_none_iff (h : IsDocument plain lists) :
    render (document plain lists) = none <-> ¬Writable plain lists := by
  constructor
  · intro hnone hwritable
    rcases h.exists_render hwritable with ⟨text, htext, _⟩
    rw [hnone] at htext
    cases htext
  · exact h.render_eq_none

/-- A document is read back from what is written for it. -/
theorem IsDocument.parse_render (h : IsDocument plain lists) {text : String}
    (htext : render (document plain lists) = some text) :
    parse text = .ok (document plain lists) := by
  by_cases hwritable : Writable plain lists
  · rcases h.exists_render hwritable with ⟨written, hrender, hadds⟩
    rw [hrender] at htext
    cases htext
    exact h.parse_eq hadds.reads
  · rw [h.render_eq_none hwritable] at htext
    cases htext

/-- A text form that loses nothing of a document: only an integer out of range keeps a document from
being written, and what is written is read back. -/
structure TextForm.IsLossless (form : TextForm) : Prop where
  refuses : forall plain lists, IsDocument plain lists ->
    (form.render (document plain lists) = none <-> ¬Writable plain lists)
  reads : forall plain lists text, IsDocument plain lists ->
    form.render (document plain lists) = some text ->
      form.parse text = .ok (document plain lists)

theorem textForm_isLossless : textForm.IsLossless where
  refuses := fun _ _ h => h.render_eq_none_iff
  reads := fun _ _ _ h htext => h.parse_render htext

end Toml
end LedgerClient
