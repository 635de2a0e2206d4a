import SinkFlow.Proofs.Rule.Expression

/-!
Rule tables are read line by line. What is read from two texts, one below the other, is what is read from each of them;
every line with a field outside its comment gives an item or is counted; and however a list of items is laid out in
lines, with blanks and comments anywhere between the fields and the lines, it is read back.
-/

namespace SinkFlow.Rule

variable {α β ε : Type}

/-! ## Layouts -/

/-- Blanks within a line. -/
def Gap (cs : List Char) : Prop := ∀ c ∈ cs, Text.isBlank c ∧ c ≠ '\n'

instance (cs : List Char) : Decidable (Gap cs) :=
  decidable_of_iff (cs.all fun c => Text.isBlank c && c != '\n') (by simp [Gap])

/-- Fields with blanks between any two of them. -/
inductive Joined : List (List Char) → List Char → Prop where
  | last (field : List Char) : Joined [field] field
  | more {fields : List (List Char)} {gap rest : List Char} (field : List Char) (hgap : Gap gap) (hne : gap ≠ [])
      (hrest : Joined fields rest) : Joined (field :: fields) (field ++ gap ++ rest)

/-- A line, or the end of one, without fields: blanks, and perhaps a comment. -/
inductive Filler : List Char → Prop where
  | blank {gap : List Char} (hgap : Gap gap) : Filler gap
  | comment {gap text : List Char} (hgap : Gap gap) (htext : '\n' ∉ text) : Filler (gap ++ '#' :: text)

/-- Fields with blanks around them, and perhaps a comment behind them. -/
def Shows (fields : List (List Char)) (line : List Char) : Prop :=
  ∃ front body back, Gap front ∧ Joined fields body ∧ Filler back ∧ line = front ++ body ++ back

/-- Items in lines of their own, in their order, and lines without fields anywhere between them. -/
inductive LaidOut (toFields : α → List (List Char)) : List α → List (List Char) → Prop where
  | nil : LaidOut toFields [] []
  | filler {items : List α} {line : List Char} {lines : List (List Char)} (hline : Filler line)
      (hrest : LaidOut toFields items lines) : LaidOut toFields items (line :: lines)
  | item {items : List α} {line : List Char} {lines : List (List Char)} (a : α) (hline : Shows (toFields a) line)
      (hrest : LaidOut toFields items lines) : LaidOut toFields (a :: items) (line :: lines)

/-- The text of some lines. -/
def textOf (lines : List (List Char)) : String := String.ofList (['\n'].intercalate lines)

/-- What can stand as a field. -/
def IsField (cs : List Char) : Prop := cs ≠ [] ∧ ∀ c ∈ cs, Text.isBlank c = false ∧ c ≠ '#'

instance (cs : List Char) : Decidable (IsField cs) :=
  decidable_of_iff (!cs.isEmpty && cs.all fun c => !Text.isBlank c && c != '#') (by simp [IsField])

/-! ## Fields of a line -/

variable {cs line body back : List Char} {fs : List (List Char)}

theorem Gap.not_mem_hash (h : Gap cs) : '#' ∉ cs := fun hc => absurd (h '#' hc).1 (by decide)

theorem Gap.not_mem_newline (h : Gap cs) : '\n' ∉ cs := fun hc => (h '\n' hc).2 rfl

theorem IsField.not_mem_hash (h : IsField cs) : '#' ∉ cs := fun hc => (h.2 '#' hc).2 rfl

theorem IsField.not_mem_newline (h : IsField cs) : '\n' ∉ cs := fun hc => absurd (h.2 '\n' hc).1 (by decide)

theorem Filler.isBlank_before (h : Filler cs) : ∀ c ∈ Text.before '#' cs, Text.isBlank c := by
  cases h with
  | blank hgap => exact fun c hc => (hgap c ((List.takeWhile_sublist _).mem hc)).1
  | comment hgap _ =>
      have hcomment (text : List Char) : Text.before '#' ('#' :: text) = [] := rfl
      rw [Text.before_append hgap.not_mem_hash, hcomment, List.append_nil]
      exact fun c hc => (hgap c hc).1

theorem Filler.not_mem_newline (h : Filler cs) : '\n' ∉ cs := by
  cases h with
  | blank hgap => exact hgap.not_mem_newline
  | comment hgap htext => simp [hgap.not_mem_newline, htext]

theorem Filler.fields_eq (h : Filler cs) : fields cs = [] := Text.words_eq_nil_iff.mpr h.isBlank_before

theorem Joined.not_mem {c : Char} (h : Joined fs body) (hfs : ∀ f ∈ fs, c ∉ f) (hgaps : ∀ gap, Gap gap → c ∉ gap) :
    c ∉ body := by
  induction h with
  | last f => exact hfs f List.mem_cons_self
  | more f hgap _ _ ih =>
      obtain ⟨hf, hrest⟩ := List.forall_mem_cons.mp hfs
      simp [hf, hgaps _ hgap, ih hrest]

theorem Joined.words_eq (h : Joined fs body) (hfs : ∀ f ∈ fs, IsField f) : Text.words body = fs := by
  induction h with
  | last f =>
      obtain ⟨hne, hchars⟩ := hfs f List.mem_cons_self
      exact Text.words_eq_singleton hne fun c hc => (hchars c hc).1
  | @more fs gap rest f hgap hgapNe _ ih =>
      obtain ⟨⟨hne, hchars⟩, hrest⟩ := List.forall_mem_cons.mp hfs
      -- The first blank of the gap ends the field, and the others come before the next one.
      obtain ⟨c, gap, rfl⟩ := List.exists_cons_of_ne_nil hgapNe
      obtain ⟨hc, hgap⟩ := List.forall_mem_cons.mp hgap
      have hword : Text.words f = [f] := Text.words_eq_singleton hne fun d hd => (hchars d hd).1
      have hnext : Text.words (gap ++ rest) = fs := by
        rw [Text.words_append_left fun d hd => (hgap d hd).1, ih hrest]
      rw [List.append_assoc, List.cons_append, Text.words_append_cons hc.1, hword, hnext]
      rfl

theorem Shows.fields_eq (h : Shows fs line) (hfs : ∀ f ∈ fs, IsField f) : fields line = fs := by
  obtain ⟨front, body, back, hfront, hbody, hback, rfl⟩ := h
  have hhash : '#' ∉ front ++ body := by
    have hno := hbody.not_mem (fun f hf => (hfs f hf).not_mem_hash) fun _ => Gap.not_mem_hash
    simp [hfront.not_mem_hash, hno]
  rw [fields, Text.before_append hhash, Text.words_append_right _ hback.isBlank_before,
    Text.words_append_left fun c hc => (hfront c hc).1, hbody.words_eq hfs]

theorem Shows.not_mem_newline (h : Shows fs line) (hfs : ∀ f ∈ fs, IsField f) : '\n' ∉ line := by
  obtain ⟨front, body, back, hfront, hbody, hback, rfl⟩ := h
  have hno := hbody.not_mem (fun f hf => (hfs f hf).not_mem_newline) fun _ => Gap.not_mem_newline
  simp [hfront.not_mem_newline, hno, hback.not_mem_newline]

/-! ## Tables -/

/-- What is read from one text and then from another. -/
def Outcome.append (first second : Outcome α) : Outcome α :=
  ⟨first.items ++ second.items, first.skipped + second.skipped⟩

/-- Whether there is anything but blanks in front of the comment of a line. -/
def hasField (line : List Char) : Bool := (Text.before '#' line).any fun c => !Text.isBlank c

/-- How a table is read: by lines, each of which gives an item or is counted if it has a field, such that well-formed
items are read back from every layout of their fields. -/
structure ReadsLines (read : String → Outcome α) (toFields : α → List (List Char)) (WellFormed : α → Prop) : Prop where
  append (t u : String) : read (t ++ "\n" ++ u) = (read t).append (read u)
  account (t : String) : (read t).items.length + (read t).skipped = (Text.lines t.toList).countP hasField
  readsBack (items : List α) (lines : List (List Char)) (hitems : ∀ a ∈ items, WellFormed a)
    (hlines : LaidOut toFields items lines) : read (textOf lines) = ⟨items, 0⟩

variable {item? : List (List Char) → Option α} {toFields : α → List (List Char)} {WellFormed : α → Prop}

/-- What the fields of some lines give. -/
def ofRows (item? : List (List Char) → Option α) (rows : List (List (List Char))) : Outcome α :=
  ⟨rows.filterMap item?, rows.countP fun row => (item? row).isNone⟩

theorem table_eq_ofRows (text : String) : table item? text = ofRows item? (fieldLines text) := by
  simp [table, ofRows, List.filterMap_map, List.countP_map, Function.comp_def]

theorem ofRows_append (rows more : List (List (List Char))) :
    ofRows item? (rows ++ more) = (ofRows item? rows).append (ofRows item? more) := by
  simp [ofRows, Outcome.append]

/-- A line with fields gives an item or is counted. -/
theorem ofRows_account (rows : List (List (List Char))) :
    (ofRows item? rows).items.length + (ofRows item? rows).skipped = rows.length := by
  induction rows with
  | nil => rfl
  | cons row rows ih =>
      simp only [ofRows] at ih
      cases hrow : item? row with
      | none => simp [ofRows, hrow, ← ih, Nat.add_assoc]
      | some a => simp [ofRows, hrow, ← ih, Nat.add_right_comm]

theorem fieldLines_append (t u : String) : fieldLines (t ++ "\n" ++ u) = fieldLines t ++ fieldLines u := by
  have htext : (t ++ "\n" ++ u).toList = t.toList ++ '\n' :: u.toList := by simp
  simp only [fieldLines, Text.lines_eq_splitOn, htext, List.splitOn_append_cons_self, List.map_append,
    List.filter_append]

theorem fields_ne_nil_iff : fields line ≠ [] ↔ hasField line := by
  rw [ne_eq, fields, Text.words_eq_nil_iff, hasField]
  simp

theorem length_fieldLines (t : String) : (fieldLines t).length = (Text.lines t.toList).countP hasField := by
  rw [fieldLines, ← List.countP_eq_length_filter, List.countP_map]
  refine List.countP_congr fun line _ => ?_
  simpa using fields_ne_nil_iff

theorem fieldLines_textOf {lines : List (List Char)} (h : ∀ line ∈ lines, '\n' ∉ line) :
    fieldLines (textOf lines) = (lines.map fields).filter (· ≠ []) := by
  cases lines with
  | nil => rfl
  | cons line lines =>
      rw [fieldLines, textOf, String.toList_ofList, Text.lines_eq_splitOn,
        List.splitOn_intercalate _ h (List.cons_ne_nil _ _)]

namespace LaidOut

variable {items : List α} {lines : List (List Char)}

theorem not_mem_newline (h : LaidOut toFields items lines) (hfields : ∀ a ∈ items, ∀ f ∈ toFields a, IsField f) :
    ∀ line ∈ lines, '\n' ∉ line := by
  induction h with
  | nil => simp
  | filler hline _ ih => exact List.forall_mem_cons.mpr ⟨hline.not_mem_newline, ih hfields⟩
  | item a hline _ ih =>
      obtain ⟨ha, hrest⟩ := List.forall_mem_cons.mp hfields
      exact List.forall_mem_cons.mpr ⟨hline.not_mem_newline ha, ih hrest⟩

/-- The lines with fields are those of the items. -/
theorem filter_fields (h : LaidOut toFields items lines)
    (hfields : ∀ a ∈ items, toFields a ≠ [] ∧ ∀ f ∈ toFields a, IsField f) :
    (lines.map fields).filter (· ≠ []) = items.map toFields := by
  induction h with
  | nil => rfl
  | filler hline _ ih => simpa [hline.fields_eq] using ih hfields
  | item a hline _ ih =>
      obtain ⟨ha, hrest⟩ := List.forall_mem_cons.mp hfields
      simpa [hline.fields_eq ha.2, ha.1] using ih hrest

end LaidOut

theorem ofRows_map (items : List α) (h : ∀ a ∈ items, item? (toFields a) = some a) :
    ofRows item? (items.map toFields) = ⟨items, 0⟩ := by
  induction items with
  | nil => rfl
  | cons a items ih =>
      obtain ⟨ha, hrest⟩ := List.forall_mem_cons.mp h
      have hitems := ih hrest
      simp only [ofRows, Outcome.mk.injEq] at hitems
      simp [ofRows, ha, hitems]

/-- A table whose items are read from their fields is read by lines. -/
theorem table_readsLines (hfields : ∀ a, WellFormed a → toFields a ≠ [] ∧ ∀ f ∈ toFields a, IsField f)
    (hitem : ∀ a, WellFormed a → item? (toFields a) = some a) : ReadsLines (table item?) toFields WellFormed where
  append t u := by rw [table_eq_ofRows, table_eq_ofRows, table_eq_ofRows, fieldLines_append, ofRows_append]
  account t := by rw [table_eq_ofRows, ofRows_account, length_fieldLines]
  readsBack items lines hitems hlines := by
    have hnewline := hlines.not_mem_newline fun a ha => (hfields a (hitems a ha)).2
    rw [table_eq_ofRows, fieldLines_textOf hnewline, hlines.filter_fields fun a ha => hfields a (hitems a ha),
      ofRows_map items fun a ha => hitem a (hitems a ha)]

/-! ## The three tables -/

theorem allOk?_map {read : α → Except ε β} {write : β → α} {bs : List β} (h : ∀ b ∈ bs, read (write b) = .ok b) :
    allOk? read (bs.map write) = some bs := by
  unfold allOk?
  induction bs with
  | nil => rfl
  | cons b bs ih =>
      obtain ⟨hb, hrest⟩ := List.forall_mem_cons.mp h
      rw [List.map_cons, List.mapM_cons, ih hrest, hb]
      rfl

theorem IsField.append {other : List Char} (h : IsField cs) (hother : IsField other) : IsField (cs ++ other) :=
  ⟨List.append_ne_nil_of_left_ne_nil h.1 _, List.forall_mem_append.mpr ⟨h.2, hother.2⟩⟩

theorem Numeral.isField {i : Int} (h : Numeral cs i) : IsField cs := by
  refine ⟨h.ne_nil, fun c hc => ⟨h.not_isBlank hc, ?_⟩⟩
  rintro rfl
  exact absurd (h.mem hc) (by decide)

theorem isField_render (rule : PropagationRule) : IsField rule.render.toList := by
  have htoken : IsField rule.operator.token.toList := by cases rule.operator <;> decide +kernel
  have hrender := ((numeral_repr rule.left).isField.append htoken).append (numeral_repr rule.right).isField
  simpa [PropagationRule.render] using hrender

/-- The fields of a line that says something of a method under a tag. -/
def taggedFields (tag : String) (signature : MethodSignature) (values : List (List Char)) : List (List Char) :=
  tag.toList :: signature.text.toList :: values

/-- The fields that are written for the rules of a method. -/
def propagationFields (set : PropagationRuleSet) : List (List Char) :=
  taggedFields set.tag set.signature (set.rules.map (·.render.toList))

/-- The fields that are written for a sensitive result. -/
def sourceFields (source : SourceCorrelation) : List (List Char) := [source.signature.text.toList, source.tag.toList]

/-- The fields that are written for a sink. -/
def sinkFields (sink : SinkDefinition) : List (List Char) :=
  taggedFields sink.tag sink.signature (sink.arguments.map fun i => (Int.repr i).toList)

/-- A tag and a signature that can stand as fields. -/
def Tagged (tag : String) (signature : MethodSignature) : Prop := IsField tag.toList ∧ IsField signature.text.toList

/-- Rules of a method that can be written: there is one, and all of them are between operand indices. -/
def WritableRules (set : PropagationRuleSet) : Prop :=
  Tagged set.tag set.signature ∧ set.rules ≠ [] ∧ ∀ rule ∈ set.rules, IsIndex rule.left ∧ IsIndex rule.right

/-- A sensitive result that can be written. -/
def WritableSource (source : SourceCorrelation) : Prop := Tagged source.tag source.signature

/-- A sink that can be written: it leaks an operand, and all that it leaks are operand indices. -/
def WritableSink (sink : SinkDefinition) : Prop :=
  Tagged sink.tag sink.signature ∧ sink.arguments ≠ [] ∧ ∀ i ∈ sink.arguments, IsIndex i

theorem isField_taggedFields {tag : String} {signature : MethodSignature} {values : List (List Char)}
    (h : Tagged tag signature) (hvalues : ∀ v ∈ values, IsField v) :
    taggedFields tag signature values ≠ [] ∧ ∀ f ∈ taggedFields tag signature values, IsField f :=
  ⟨List.cons_ne_nil _ _, List.forall_mem_cons.mpr ⟨h.1, List.forall_mem_cons.mpr ⟨h.2, hvalues⟩⟩⟩

theorem propagationItem?_fields {set : PropagationRuleSet} (h : WritableRules set) :
    propagationItem? (propagationFields set) = some set := by
  obtain ⟨tag, signature, rules⟩ := set
  obtain ⟨_, hne, hrules⟩ := h
  have hread := allOk?_map fun rule hr => expression_render (hrules rule hr).1 (hrules rule hr).2
  obtain ⟨first, rest, rfl⟩ := List.exists_cons_of_ne_nil hne
  rw [List.map_cons] at hread
  simp [propagationFields, taggedFields, propagationItem?, hread]

theorem sinkItem?_fields {sink : SinkDefinition} (h : WritableSink sink) : sinkItem? (sinkFields sink) = some sink := by
  obtain ⟨tag, signature, arguments⟩ := sink
  obtain ⟨_, hne, harguments⟩ := h
  have hread := allOk?_map fun i hi => index_eq_ok_iff.mpr (operand_repr (harguments i hi))
  obtain ⟨first, rest, rfl⟩ := List.exists_cons_of_ne_nil hne
  rw [List.map_cons] at hread
  simp [sinkFields, taggedFields, sinkItem?, hread]

theorem propagationTable_readsLines : ReadsLines propagationTable propagationFields WritableRules :=
  table_readsLines (fun _ h => isField_taggedFields h.1 (List.forall_mem_map.mpr fun rule _ => isField_render rule))
    fun _ => propagationItem?_fields

theorem sourceTable_readsLines : ReadsLines sourceTable sourceFields WritableSource :=
  table_readsLines (fun _ h => ⟨List.cons_ne_nil _ _, by simpa [sourceFields] using And.comm.mp h⟩)
    fun source _ => by simp [sourceFields, sourceItem?]

theorem sinkTable_readsLines : ReadsLines sinkTable sinkFields WritableSink :=
  table_readsLines (fun _ h => isField_taggedFields h.1 (List.forall_mem_map.mpr fun i _ => (numeral_repr i).isField))
    fun _ => sinkItem?_fields

/-- All three tables are read line by line, and every layout of their items is read back. -/
theorem tables_read_lines :
    ReadsLines propagationTable propagationFields WritableRules ∧
      ReadsLines sourceTable sourceFields WritableSource ∧ ReadsLines sinkTable sinkFields WritableSink :=
  ⟨propagationTable_readsLines, sourceTable_readsLines, sinkTable_readsLines⟩

/-- Rules between a comment and a line of blanks, with tabs, a no-break space and carriage returns around the fields. -/
theorem laid_out_rules_read :
    let set : PropagationRuleSet := ⟨"net", ⟨"a.B.c(I)V"⟩, [⟨0, .both, 1⟩, ⟨2, .intoRight, -1⟩]⟩
    let line := "\tnet  a.B.c(I)V\u00a00<=>1 2=>-1#both\r".toList
    WritableRules set ∧ LaidOut propagationFields [set] ["# rules".toList, line, [' ', '\r'], []] ∧
      propagationTable "# rules\n\tnet  a.B.c(I)V\u00a00<=>1 2=>-1#both\r\n \r\n" = ⟨[set], 0⟩ := by
  intro set line
  have hset : WritableRules set :=
    ⟨⟨by decide +kernel, by decide +kernel⟩, List.cons_ne_nil _ _, by simp [set, IsIndex]⟩
  have hcomment : Filler "# rules".toList := @Filler.comment [] " rules".toList (by decide +kernel) (by decide +kernel)
  have hback : Filler "#both\r".toList := @Filler.comment [] "both\r".toList (by decide +kernel) (by decide +kernel)
  have hrules : Joined [['0', '<', '=', '>', '1'], "2=>-1".toList] "0<=>1 2=>-1".toList :=
    @Joined.more _ [' '] _ _ (by decide +kernel) (by decide +kernel) (.last _)
  have hbody : Joined (propagationFields set) "net  a.B.c(I)V\u00a00<=>1 2=>-1".toList :=
    @Joined.more _ "  ".toList _ "net".toList (by decide +kernel) (by decide +kernel)
      (@Joined.more _ ['\u00a0'] _ "a.B.c(I)V".toList (by decide +kernel) (by decide +kernel) hrules)
  have hlaid : LaidOut propagationFields [set] ["# rules".toList, line, [' ', '\r'], []] :=
    .filler hcomment (.item set ⟨['\t'], _, _, by decide +kernel, hbody, hback, by decide +kernel⟩
      (.filler (.blank (by decide +kernel)) (.filler (.blank (by decide +kernel)) .nil)))
  have htext : textOf ["# rules".toList, line, [' ', '\r'], []] =
      "# rules\n\tnet  a.B.c(I)V\u00a00<=>1 2=>-1#both\r\n \r\n" := by decide +kernel
  exact ⟨hset, hlaid, htext ▸ tables_read_lines.1.readsBack [set] _ (by simpa using hset) hlaid⟩

end SinkFlow.Rule
