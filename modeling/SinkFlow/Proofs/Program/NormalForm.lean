import Mathlib.Data.List.Induction
import Mathlib.Data.List.Sort
import Mathlib.Data.String.Basic
import SinkFlow.Proofs.Fact
import SinkFlow.Proofs.Program

/-!
Documents of dependence graphs and their normal form: every edge once, one literal for each slot and one initializer for
each class, both in order. The document of a graph is the normal form of the document that the graph was read from, and
reading it again gives a graph that answers every question in the same way.
-/

namespace SinkFlow

/-! ## Sorting -/

section Sorting

variable {α : Type} {le : α → α → Bool}

theorem pairwise_insertBy (total : ∀ a b, le a b ∨ le b a) (trans : ∀ a b c, le a b → le b c → le a c) (a : α)
    {as : List α} (h : as.Pairwise fun a b => le a b) : (insertBy le a as).Pairwise fun a b => le a b := by
  induction as with
  | nil => exact List.pairwise_singleton _ a
  | cons b bs ih =>
      obtain ⟨hb, hbs⟩ := List.pairwise_cons.mp h
      simp only [insertBy]
      split
      · rename_i hab
        refine List.pairwise_cons.mpr ⟨fun c hc => ?_, h⟩
        rcases List.mem_cons.mp hc with rfl | hc
        · exact hab
        · exact trans a b c hab (hb c hc)
      · rename_i hab
        refine List.pairwise_cons.mpr ⟨fun c hc => ?_, ih hbs⟩
        rcases List.mem_cons.mp ((insertBy_perm le a bs).mem_iff.mp hc) with rfl | hc
        · exact (total c b).resolve_left hab
        · exact hb c hc

theorem pairwise_sortBy (total : ∀ a b, le a b ∨ le b a) (trans : ∀ a b c, le a b → le b c → le a c) (as : List α) :
    (sortBy le as).Pairwise fun a b => le a b := by
  induction as with
  | nil => exact .nil
  | cons a as ih => exact pairwise_insertBy total trans a ih

end Sorting

/-- Of elements with different keys, the last one with a key is the only one. -/
theorem getLast?_filter_eq_some_iff {α κ : Type} [DecidableEq κ] {key : α → κ} {as : List α} (h : (as.map key).Nodup)
    {a : α} : (as.filter (key · = key a)).getLast? = some a ↔ a ∈ as := by
  refine ⟨fun hlast => (List.mem_filter.mp (List.mem_of_getLast? hlast)).1, fun ha => ?_⟩
  have hne : as.filter (key · = key a) ≠ [] := List.ne_nil_of_mem (List.mem_filter.mpr ⟨ha, by simp⟩)
  obtain ⟨b, hb⟩ := Option.isSome_iff_exists.mp (List.getLast?_isSome.mpr hne)
  obtain ⟨hmem, hkey⟩ := List.mem_filter.mp (List.mem_of_getLast? hb)
  rw [hb, List.inj_on_of_nodup_map h hmem ha (of_decide_eq_true hkey)]

/-- The last element with a key is the one that was added last with it. -/
theorem getLast?_filter_concat {α κ : Type} [DecidableEq κ] (key : α → κ) (k : κ) (as : List α) (a : α) :
    ((as ++ [a]).filter (key · = k)).getLast? = if k = key a then some a else (as.filter (key · = k)).getLast? := by
  rw [List.filter_append]
  by_cases hk : key a = k
  · simp [hk]
  · simp [hk, Ne.symm hk]

/-- If elements are told apart by a key and a value, the last one with the key of an element has its value just if it is
that element. -/
theorem getLast?_filter_map_eq_some_iff {α κ ν : Type} [DecidableEq κ] {key : α → κ} {value : α → ν}
    (hext : ∀ a b, key a = key b → value a = value b → a = b) {as : List α} {a : α} :
    ((as.filter (key · = key a)).getLast?).map value = some (value a) ↔
      (as.filter (key · = key a)).getLast? = some a := by
  rw [Option.map_eq_some_iff]
  constructor
  · rintro ⟨b, hlast, hvalue⟩
    have hkey := of_decide_eq_true (List.mem_filter.mp (List.mem_of_getLast? hlast)).2
    exact hext b a hkey hvalue ▸ hlast
  · exact fun hlast => ⟨a, hlast, rfl⟩

namespace Table

variable {κ ν : Type}

/-- Sorted by key, the entries of a table are strictly ordered. -/
theorem pairwise_sortBy_entries {le : κ → κ → Bool} {lt : κ → κ → Prop} (total : ∀ a b, le a b ∨ le b a)
    (trans : ∀ a b c, le a b → le b c → le a c) (strict : ∀ a b, le a b → a ≠ b → lt a b) (t : Table κ ν) :
    (sortBy (fun a b => le a.1 b.1) t.entries).Pairwise fun a b => lt a.1 b.1 := by
  have hle : (sortBy (fun a b => le a.1 b.1) t.entries).Pairwise fun a b => le a.1 b.1 :=
    pairwise_sortBy (fun a b => total a.1 b.1) (fun a b c => trans a.1 b.1 c.1) t.entries
  have hne : ((sortBy (fun a b => le a.1 b.1) t.entries).map Prod.fst).Nodup :=
    ((sortBy_perm _ t.entries).map Prod.fst).nodup_iff.mpr t.nodup
  exact (hle.and (List.pairwise_map.mp hne)).imp fun h => strict _ _ h.1 h.2

/-- A list with one element for each entry of a table gives the same look-ups. -/
theorem getLast?_filter_map [DecidableEq κ] {α : Type} {key : α → κ} {value : α → ν} {as : List α} {t : Table κ ν}
    (hmem : ∀ a, a ∈ as ↔ t.get? (key a) = some (value a)) (hkeys : (as.map key).Nodup)
    (hmake : ∀ k v, ∃ a, key a = k ∧ value a = v) (k : κ) :
    ((as.filter (key · = k)).getLast?).map value = t.get? k := by
  refine Option.ext fun v => ?_
  obtain ⟨a, rfl, rfl⟩ := hmake k v
  rw [← hmem]
  constructor
  · intro hlast
    obtain ⟨b, hlast, hvalue⟩ := Option.map_eq_some_iff.mp hlast
    obtain ⟨hb, hkey⟩ := List.mem_filter.mp (List.mem_of_getLast? hlast)
    rw [hmem, ← of_decide_eq_true hkey, ← hvalue]
    exact (hmem b).mp hb
  · exact fun ha => Option.map_eq_some_iff.mpr ⟨a, (getLast?_filter_eq_some_iff hkeys).mpr ha, rfl⟩

end Table

theorem eraseDups_of_nodup {α : Type} [BEq α] [LawfulBEq α] {as : List α} (h : as.Nodup) : as.eraseDups = as := by
  induction as with
  | nil => rfl
  | cons a as ih =>
      obtain ⟨ha, has⟩ := List.nodup_cons.mp h
      have hfilter : as.filter (!· == a) = as := by
        refine List.filter_eq_self.mpr fun b hb => ?_
        have hne : b ≠ a := fun he => ha (he ▸ hb)
        simp [hne]
      rw [List.eraseDups_cons, hfilter, ih has]

/-! ## Normal forms -/

/-- The slot that a literal is known for. -/
def LiteralEntry.place (e : LiteralEntry) : ProcedureId × ValueSlot := (e.procedure, e.slot)

theorem LiteralEntry.eq_of_place (e e' : LiteralEntry) (hplace : e.place = e'.place) (hliteral : e.literal = e'.literal) :
    e = e' := by
  obtain ⟨hprocedure, hslot⟩ := Prod.mk.inj hplace
  cases e
  cases e'
  cases hprocedure
  cases hslot
  cases hliteral
  rfl

namespace GraphDocument

/-- The identifiers of all statements. -/
def statementIds (d : GraphDocument) : List StatementId := d.statements.map Statement.id

/-- The ends of all edges in their order, sources before targets. -/
def ends (d : GraphDocument) : List StatementId := d.edges.flatMap fun edge => [edge.1, edge.2]

/-- The order of slots: by procedure, then by slot. -/
def SlotLt (a b : ProcedureId × ValueSlot) : Prop := a.1 < b.1 ∨ a.1 = b.1 ∧ a.2 < b.2

/-- The normal form of a document. A repeated edge is kept where it came first; of the literals of a slot, and of the
initializers of a class, only the last one is kept, and they are put in order. -/
structure NormalizesTo (d n : GraphDocument) : Prop where
  rootProcedure : n.rootProcedure = d.rootProcedure
  statements : n.statements = d.statements
  edges : n.edges = d.edges.eraseDups
  sortedLiterals : n.literals.Pairwise fun a b => SlotLt a.place b.place
  literals : ∀ e, e ∈ n.literals ↔ (d.literals.filter (·.place = e.place)).getLast? = some e
  sortedInitializers : n.initializers.Pairwise fun a b => a.1 < b.1
  initializers : ∀ e, e ∈ n.initializers ↔ (d.initializers.filter (·.1 = e.1)).getLast? = some e

theorem SlotLt.irrefl (a : ProcedureId × ValueSlot) : ¬ SlotLt a a := by
  rintro (h | ⟨_, h⟩)
  · exact UInt32.lt_irrefl _ h
  · exact UInt32.lt_irrefl _ h

theorem SlotLt.asymm {a b : ProcedureId × ValueSlot} (h : SlotLt a b) : ¬ SlotLt b a := by
  rintro (h' | ⟨he, h'⟩) <;> rcases h with h | ⟨he', h⟩
  · exact UInt32.lt_asymm h h'
  · exact UInt32.lt_irrefl _ (he' ▸ h')
  · exact UInt32.lt_irrefl _ (he ▸ h)
  · exact UInt32.lt_asymm h h'

/-- A strictly ordered list is determined by its members. -/
theorem eq_of_pairwise {α : Type} {lt : α → α → Prop} (irrefl : ∀ a, ¬ lt a a) (asymm : ∀ a b, lt a b → ¬ lt b a)
    {as bs : List α} (has : as.Pairwise lt) (hbs : bs.Pairwise lt) (h : ∀ a, a ∈ as ↔ a ∈ bs) : as = bs := by
  have : Std.Irrefl lt := ⟨irrefl⟩
  have : Std.Antisymm lt := ⟨fun a b hab hba => absurd hba (asymm a b hab)⟩
  exact has.eq_of_mem_iff hbs h

namespace NormalizesTo

variable {d n n' : GraphDocument}

theorem unique (h : d.NormalizesTo n) (h' : d.NormalizesTo n') : n = n' := by
  have hliterals : n.literals = n'.literals :=
    eq_of_pairwise (fun a => SlotLt.irrefl a.place) (fun a b => SlotLt.asymm) h.sortedLiterals h'.sortedLiterals
      fun e => (h.literals e).trans (h'.literals e).symm
  have hinitializers : n.initializers = n'.initializers :=
    eq_of_pairwise (fun a => lt_irrefl a.1) (fun a b => lt_asymm) h.sortedInitializers h'.sortedInitializers
      fun e => (h.initializers e).trans (h'.initializers e).symm
  obtain ⟨root, statements, edges, literals, initializers⟩ := n
  obtain ⟨root', statements', edges', literals', initializers'⟩ := n'
  cases h.rootProcedure.trans h'.rootProcedure.symm
  cases h.statements.trans h'.statements.symm
  cases h.edges.trans h'.edges.symm
  cases hliterals
  cases hinitializers
  rfl

theorem nodup_places (h : d.NormalizesTo n) : (n.literals.map LiteralEntry.place).Nodup := by
  refine List.pairwise_map.mpr (h.sortedLiterals.imp fun hlt he => ?_)
  exact SlotLt.irrefl _ (he ▸ hlt)

theorem nodup_classes (h : d.NormalizesTo n) : (n.initializers.map Prod.fst).Nodup :=
  List.pairwise_map.mpr (h.sortedInitializers.imp fun hlt => ne_of_lt hlt)

/-- A normal form is its own one. -/
theorem self (h : d.NormalizesTo n) : n.NormalizesTo n where
  rootProcedure := rfl
  statements := rfl
  edges := by
    rw [h.edges]
    exact (eraseDups_of_nodup (nodup_eraseDups _)).symm
  sortedLiterals := h.sortedLiterals
  literals _ := (getLast?_filter_eq_some_iff h.nodup_places).symm
  sortedInitializers := h.sortedInitializers
  initializers _ := (getLast?_filter_eq_some_iff h.nodup_classes).symm

end NormalizesTo

end GraphDocument

/-! ## Holding a document -/

namespace DependenceTables

variable {L : DigraphLibrary Statement} {g g' : DependenceTables L} {d : GraphDocument} {id source target : StatementId}

/-- Tables hold what a document says. -/
structure Holds (g : DependenceTables L) (d : GraphDocument) : Prop where
  rootProcedure : g.rootProcedure = d.rootProcedure
  statements : g.statements = d.statements
  /-- Of several statements with one identifier the last one counts. -/
  statement? : ∀ id, g.statement? id = (d.statements.filter (·.id = id)).getLast?
  edges : g.edges = d.edges.eraseDups
  literals : ∀ k, g.literals.get? k = ((d.literals.filter (·.place = k)).getLast?).map LiteralEntry.literal
  initializers : ∀ k, g.initializers.get? k = ((d.initializers.filter (·.1 = k)).getLast?).map Prod.snd

theorem holds_new (rootProcedure : Option ProcedureId) :
    ({ rootProcedure } : DependenceTables L).Holds { rootProcedure } where
  rootProcedure := rfl
  statements := L.weights_empty
  statement? _ := rfl
  edges := by simp [edges, L.edges_empty]
  literals _ := rfl
  initializers _ := rfl

theorem edges_of_empty (h : L.edges g.graph = []) : g.edges = [] := by
  rw [edges, h, List.filterMap_nil]

theorem statement?_insert (h : g.Linked) (s : Statement) (id : StatementId) :
    (g.insert s).statement? id = if id = s.id then some s else g.statement? id := by
  have hnew : (L.addNode g.graph s).1 = g.statements.length := L.index_addNode g.graph s
  rw [DependenceTables.statement?, index_insert, DependenceTables.insert]
  split
  · rw [Option.bind_some, DigraphLibrary.weight?_addNode, if_pos hnew.symm]
  · cases hn : g.index.get? id with
    | none => rw [DependenceTables.statement?, hn]; rfl
    | some n =>
        have hlt : n < g.statements.length := lt_of_idAt? (h.index id n hn)
        rw [Option.bind_some, DigraphLibrary.weight?_addNode, hnew, if_neg (Nat.ne_of_lt hlt),
          DependenceTables.statement?, hn, Option.bind_some]

/-- An edge that is added comes last, unless it is there. -/
theorem Linked.edges_addEdge (h : g.Linked) (hg : g.addEdge source target = .ok g') :
    g'.edges = addOnce g.edges (source, target) := by
  obtain ⟨a, b, ha, hb, rfl⟩ := addEdge_eq_ok_iff.mp hg
  have hlt := lt_of_idAt? (h.index _ _ ha)
  have hlt' := lt_of_idAt? (h.index _ _ hb)
  have hends : ({ g with graph := L.updateEdge g.graph a b } : DependenceTables L).endIds? = g.endIds? := by
    funext edge
    simp only [endIds?, idAt?_updateEdge hlt hlt']
  have hnew : g.endIds? (a, b) = some (source, target) := endIds?_eq_some_iff.mpr ⟨h.index _ _ ha, h.index _ _ hb⟩
  have hmem : (a, b) ∈ L.edges g.graph ↔ (source, target) ∈ g.edges := by
    rw [h.mem_edges]
    exact ⟨fun hab => ⟨a, b, ha, hb, hab⟩, fun ⟨a', b', ha', hb', hab⟩ => by
      cases ha.symm.trans ha'
      cases hb.symm.trans hb'
      exact hab⟩
  simp only [edges] at hmem ⊢
  rw [hends, DigraphLibrary.edges_updateEdge hlt hlt', addOnce, addOnce]
  by_cases hab : (a, b) ∈ L.edges g.graph
  · rw [if_pos hab, if_pos (hmem.mp hab)]
  · rw [if_neg hab, if_neg (mt hmem.mpr hab), List.filterMap_append, List.filterMap_cons_some hnew, List.filterMap_nil]

theorem statements_addEdge (h : g.Linked) (hg : g.addEdge source target = .ok g') : g'.statements = g.statements := by
  obtain ⟨a, b, ha, hb, rfl⟩ := addEdge_eq_ok_iff.mp hg
  exact L.weights_updateEdge g.graph (lt_of_idAt? (h.index _ _ ha)) (lt_of_idAt? (h.index _ _ hb))

theorem statement?_addEdge (h : g.Linked) (hg : g.addEdge source target = .ok g') (id : StatementId) :
    g'.statement? id = g.statement? id := by
  obtain ⟨a, b, ha, hb, rfl⟩ := addEdge_eq_ok_iff.mp hg
  simp only [DependenceTables.statement?]
  refine congrArg _ (funext fun n => ?_)
  exact DigraphLibrary.weight?_updateEdge (lt_of_idAt? (h.index _ _ ha)) (lt_of_idAt? (h.index _ _ hb)) n

namespace Holds

theorem insert (h : g.Holds d) (hl : g.Linked) (hedges : L.edges g.graph = []) (s : Statement) :
    (g.insert s).Holds { d with statements := d.statements ++ [s] } where
  rootProcedure := h.rootProcedure
  statements := by rw [statements_insert, h.statements]
  statement? id := by
    rw [statement?_insert hl, getLast?_filter_concat Statement.id, h.statement?]
  edges := by
    rw [edges_of_empty ((edges_insert g s).trans hedges), ← h.edges, edges_of_empty hedges]
  literals := h.literals
  initializers := h.initializers

theorem insertAll (h : g.Holds d) (hl : g.Linked) (hedges : L.edges g.graph = []) (ss : List Statement) :
    (ss.foldl DependenceTables.insert g).Holds { d with statements := d.statements ++ ss } := by
  induction ss generalizing g d with
  | nil => simpa using h
  | cons s ss ih =>
      have hrest := ih (h.insert hl hedges s) (hl.insert s (.inr hedges)) ((edges_insert g s).trans hedges)
      simpa using hrest

theorem addEdge (h : g.Holds d) (hl : g.Linked) (hg : g.addEdge source target = .ok g') :
    g'.Holds { d with edges := d.edges ++ [(source, target)] } where
  rootProcedure := by
    obtain ⟨_, _, _, _, rfl⟩ := addEdge_eq_ok_iff.mp hg
    exact h.rootProcedure
  statements := (statements_addEdge hl hg).trans h.statements
  statement? id := (statement?_addEdge hl hg id).trans (h.statement? id)
  edges := by rw [hl.edges_addEdge hg, h.edges, addOnce_eraseDups]
  literals := by
    obtain ⟨_, _, _, _, rfl⟩ := addEdge_eq_ok_iff.mp hg
    exact h.literals
  initializers := by
    obtain ⟨_, _, _, _, rfl⟩ := addEdge_eq_ok_iff.mp hg
    exact h.initializers

end Holds

/-- The node of an identifier can be looked up if and only if there is a statement with it. -/
theorem Linked.node_cases (h : g.Linked) (id : StatementId) :
    id ∈ g.statementIds ∧ (∃ n, g.node id = .ok n) ∨
      id ∉ g.statementIds ∧ g.node id = .error (.unknownStatement id) := by
  rw [← h.index_isSome, node]
  cases g.index.get? id <;> simp

end DependenceTables

/-! ## Reading -/

namespace DependenceGraph

open GraphDocument

variable {L : DigraphLibrary Statement} {d : GraphDocument} {g g' : DependenceGraph L} {source target : StatementId}

theorem addEdge_eq_ok_iff :
    g.addEdge source target = .ok g' ↔ g.toDependenceTables.addEdge source target = .ok g'.toDependenceTables := by
  unfold addEdge
  split
  · rename_i tables htables
    constructor
    · rintro ⟨⟩
      exact htables
    · intro h
      cases htables.symm.trans h
      rfl
  · rename_i htables
    simp [htables]

/-- Adding an edge fails at the first end that is no statement. -/
theorem addEdge_cases (g : DependenceGraph L) (source target : StatementId) :
    match [source, target].find? (· ∉ g.statementIds) with
    | some id => g.addEdge source target = .error (.unknownStatement id)
    | none => ∃ g', g.addEdge source target = .ok g' := by
  have hfails : ∀ e, g.toDependenceTables.addEdge source target = .error e → g.addEdge source target = .error e := by
    intro e he
    unfold addEdge
    split
    · rename_i htables
      cases he.symm.trans htables
    · rename_i htables
      cases he.symm.trans htables
      rfl
  rcases g.linked.node_cases source with ⟨hsource, a, ha⟩ | ⟨hsource, ha⟩
  · rcases g.linked.node_cases target with ⟨htarget, b, hb⟩ | ⟨htarget, hb⟩
    · have hg : g.toDependenceTables.addEdge source target = .ok { g.toDependenceTables with
          graph := L.updateEdge g.graph a b } := by
        simp [DependenceTables.addEdge, ha, hb, bind, Except.bind, pure, Except.pure]
      simp only [List.find?_cons, hsource, htarget, not_true_eq_false, decide_false, List.find?_nil]
      exact ⟨⟨_, g.linked.addEdge hg⟩, addEdge_eq_ok_iff.mpr hg⟩
    · simp only [List.find?_cons, hsource, htarget, not_true_eq_false, not_false_eq_true, decide_false, decide_true]
      exact hfails _ (by simp [DependenceTables.addEdge, ha, hb, bind, Except.bind])
  · simp only [List.find?_cons, hsource, not_false_eq_true, decide_true]
    exact hfails _ (by simp [DependenceTables.addEdge, ha, bind, Except.bind])

/-- Adding edges fails at the first end that is no statement; else the tables hold the edges. -/
theorem addEdges_cases (h : g.Holds d) (edges : List (StatementId × StatementId)) :
    match (edges.flatMap fun edge => [edge.1, edge.2]).find? (· ∉ d.statementIds) with
    | some id => (g.addEdges edges).2 = .error (.unknownStatement id)
    | none => (g.addEdges edges).2 = .ok () ∧ (g.addEdges edges).1.Holds { d with edges := d.edges ++ edges } := by
  induction edges generalizing g d with
  | nil => exact ⟨rfl, by simpa [addEdges] using h⟩
  | cons edge edges ih =>
      obtain ⟨source, target⟩ := edge
      have hids : g.statementIds = d.statementIds := congrArg (List.map Statement.id) h.statements
      have hadd := addEdge_cases g source target
      rw [hids] at hadd
      rw [List.flatMap_cons, List.find?_append, addEdges]
      cases hfind : [source, target].find? (· ∉ d.statementIds) with
      | some id =>
          rw [hfind] at hadd
          rw [hadd]
          rfl
      | none =>
          rw [hfind] at hadd
          obtain ⟨g', hg'⟩ := hadd
          rw [hg', Option.none_or]
          simpa [statementIds] using ih (h.addEdge g.linked (addEdge_eq_ok_iff.mp hg'))

theorem holds_setLiterals (h : g.Holds d) (es : List LiteralEntry) :
    (es.foldl (fun g e => g.setLiteral e.procedure e.slot e.literal) g).Holds
      { d with literals := d.literals ++ es } := by
  induction es generalizing g d with
  | nil => simpa using h
  | cons e es ih =>
      have hset : (g.setLiteral e.procedure e.slot e.literal).Holds { d with literals := d.literals ++ [e] } := by
        refine { h with literals := fun k => ?_ }
        rw [getLast?_filter_concat LiteralEntry.place, apply_ite (Option.map _), ← h.literals]
        exact Table.get?_insert _ _ _ _
      simpa using ih hset

theorem holds_setInitializers (h : g.Holds d) (es : List (String × InitializerBody)) :
    (es.foldl (fun g e => g.setInitializer e.1 e.2) g).Holds { d with initializers := d.initializers ++ es } := by
  induction es generalizing g d with
  | nil => simpa using h
  | cons e es ih =>
      have hset : (g.setInitializer e.1 e.2).Holds { d with initializers := d.initializers ++ [e] } := by
        refine { h with initializers := fun k => ?_ }
        rw [getLast?_filter_concat Prod.fst, apply_ite (Option.map _), ← h.initializers]
        exact Table.get?_insert _ _ _ _
      simpa using ih hset

/-- Reading a document fails at the first end of an edge that is no statement; else the graph holds what the document
says. -/
theorem ofDocument_cases (L : DigraphLibrary Statement) (d : GraphDocument) :
    match d.ends.find? (· ∉ d.statementIds) with
    | some id => ofDocument L d = .error (.unknownStatement id)
    | none => ∃ g, ofDocument L d = .ok g ∧ g.Holds d := by
  have hnew : (ofStatements d.rootProcedure d.statements : DependenceGraph L).Holds
      { rootProcedure := d.rootProcedure, statements := d.statements } :=
    (DependenceTables.holds_new d.rootProcedure).insertAll (DependenceTables.linked_new _) L.edges_empty d.statements
  have hadd := addEdges_cases hnew d.edges
  rcases hresult : (ofStatements d.rootProcedure d.statements : DependenceGraph L).addEdges d.edges with ⟨g, r⟩
  rw [hresult] at hadd
  simp only [ofDocument]
  rw [hresult]
  change match d.ends.find? (· ∉ d.statementIds) with
    | some id => r = .error (.unknownStatement id)
    | none => r = .ok () ∧ g.Holds _ at hadd
  cases hfind : d.ends.find? (· ∉ d.statementIds) with
  | some id =>
      rw [hfind] at hadd
      rw [hadd]
  | none =>
      rw [hfind] at hadd
      obtain ⟨rfl, hholds⟩ := hadd
      exact ⟨_, rfl, by simpa using holds_setInitializers (holds_setLiterals hholds d.literals) d.initializers⟩

theorem holds_of_ofDocument (h : ofDocument L d = .ok g) : g.Holds d := by
  have hcases := ofDocument_cases L d
  split at hcases
  · rw [h] at hcases
    cases hcases
  · obtain ⟨g', hg', hholds⟩ := hcases
    cases h.symm.trans hg'
    exact hholds

/-- A document can be read if and only if all its edges join statements. -/
theorem ofDocument_eq_ok_iff :
    (∃ g, ofDocument L d = .ok g) ↔ ∀ edge ∈ d.edges, edge.1 ∈ d.statementIds ∧ edge.2 ∈ d.statementIds := by
  have hends : d.ends.find? (· ∉ d.statementIds) = none ↔
      ∀ edge ∈ d.edges, edge.1 ∈ d.statementIds ∧ edge.2 ∈ d.statementIds := by
    simp [ends]
  rw [← hends]
  have hcases := ofDocument_cases L d
  cases hfind : d.ends.find? (· ∉ d.statementIds) with
  | some id =>
      rw [hfind] at hcases
      simp [show ofDocument L d = .error (.unknownStatement id) from hcases]
  | none =>
      rw [hfind] at hcases
      obtain ⟨g, hg, _⟩ := hcases
      simp [hg]

/-! ## Writing -/

theorem slotLe_total (a b : ProcedureId × ValueSlot) : slotLe a b ∨ slotLe b a := by
  simp only [slotLe, Bool.or_eq_true, Bool.and_eq_true, decide_eq_true_eq, beq_iff_eq]
  grind

theorem slotLe_trans (a b c : ProcedureId × ValueSlot) (hab : slotLe a b) (hbc : slotLe b c) : slotLe a c := by
  simp only [slotLe, Bool.or_eq_true, Bool.and_eq_true, decide_eq_true_eq, beq_iff_eq] at hab hbc ⊢
  grind

theorem slotLt_of_slotLe (a b : ProcedureId × ValueSlot) (h : slotLe a b) (hne : a ≠ b) : SlotLt a b := by
  simp only [slotLe, Bool.or_eq_true, Bool.and_eq_true, decide_eq_true_eq, beq_iff_eq] at h
  refine h.imp_right fun h => ⟨h.1, UInt32.lt_of_le_of_ne h.2 fun he => hne ?_⟩
  exact Prod.ext h.1 he

theorem mem_literals {e : LiteralEntry} : e ∈ g.toDocument.literals ↔ g.literals.get? e.place = some e.literal := by
  simp only [toDocument, List.mem_map, mem_sortBy, Table.get?_eq_some_iff]
  constructor
  · rintro ⟨entry, hmem, rfl⟩
    exact hmem
  · exact fun hmem => ⟨_, hmem, rfl⟩

theorem mem_initializers {e : String × InitializerBody} :
    e ∈ g.toDocument.initializers ↔ g.initializers.get? e.1 = some e.2 := by
  simp only [toDocument, mem_sortBy, Table.get?_eq_some_iff]

/-- The document of a graph is the normal form of the document that it holds. -/
theorem normalizesTo (h : g.Holds d) : d.NormalizesTo g.toDocument where
  rootProcedure := h.rootProcedure
  statements := h.statements
  edges := h.edges
  sortedLiterals := List.pairwise_map.mpr
    (g.literals.pairwise_sortBy_entries slotLe_total slotLe_trans slotLt_of_slotLe)
  literals e := by
    rw [mem_literals, h.literals]
    exact getLast?_filter_map_eq_some_iff LiteralEntry.eq_of_place
  sortedInitializers := by
    have htotal : ∀ a b : String, decide (a ≤ b) ∨ decide (b ≤ a) := fun a b => by simpa using le_total a b
    refine g.initializers.pairwise_sortBy_entries htotal ?_ ?_
    · intro a b c hab hbc
      exact decide_eq_true (le_trans (of_decide_eq_true hab) (of_decide_eq_true hbc))
    · exact fun a b hab hne => lt_of_le_of_ne (of_decide_eq_true hab) hne
  initializers e := by
    rw [mem_initializers, h.initializers]
    exact getLast?_filter_map_eq_some_iff fun _ _ hclass hbody => Prod.ext hclass hbody

/-! ## Reading again -/

/-- Two graphs answer every question in the same way. -/
structure AnswersAs (g g' : DependenceGraph L) : Prop where
  statementIds : g.statementIds = g'.statementIds
  statement? : ∀ id, g.statement? id = g'.statement? id
  successors : ∀ id, g.successors id = g'.successors id
  predecessors : ∀ id, g.predecessors id = g'.predecessors id
  predecessorCount : ∀ id, g.predecessorCount id = g'.predecessorCount id
  roots : g.roots = g'.roots
  literal? : ∀ procedure slot, g.literal? procedure slot = g'.literal? procedure slot
  rootProcedure : g.rootProcedure = g'.rootProcedure
  initializer? : ∀ className, g.initializer? className = g'.initializer? className

theorem roots_eq (g : DependenceGraph L) :
    g.roots = g.statementIds.filter fun id => g.predecessorCount id = 0 := rfl

/-- What a graph answers is in its lists of statements and edges and in its tables. -/
theorem AnswersAs.of_parts (hroot : g.rootProcedure = g'.rootProcedure) (hstatements : g.statements = g'.statements)
    (hstatement? : ∀ id, g.statement? id = g'.statement? id) (hedges : g.edges = g'.edges)
    (hliterals : ∀ k, g.literals.get? k = g'.literals.get? k)
    (hinitializers : ∀ k, g.initializers.get? k = g'.initializers.get? k) : g.AnswersAs g' := by
  have hpredecessors : ∀ id, g.predecessors id = g'.predecessors id := fun id => by
    rw [g.linked.predecessors_eq, g'.linked.predecessors_eq, hedges]
  have hcount : g.predecessorCount = g'.predecessorCount := funext fun id => by
    rw [g.linked.predecessorCount_eq, g'.linked.predecessorCount_eq, hpredecessors]
  have hids : g.statementIds = g'.statementIds := congrArg (List.map Statement.id) hstatements
  refine ⟨hids, hstatement?, fun id => ?_, hpredecessors, congrFun hcount, ?_, fun _ _ => hliterals _, hroot, hinitializers⟩
  · rw [g.linked.successors_eq, g'.linked.successors_eq, hedges]
  · rw [roots_eq, roots_eq, hids, hcount]

/-- A graph that holds the document of another one answers as that one does. -/
theorem answersAs (h : g.Holds d) (h' : g'.Holds g.toDocument) : g'.AnswersAs g := by
  have hnormal := normalizesTo h
  refine .of_parts h'.rootProcedure h'.statements (fun id => ?_) ?_ (fun k => ?_) fun k => ?_
  · rw [h'.statement?, h.statement?, hnormal.statements]
  · rw [h'.edges, hnormal.edges, eraseDups_of_nodup (nodup_eraseDups _), h.edges]
  · rw [h'.literals]
    exact Table.getLast?_filter_map (fun _ => mem_literals) hnormal.nodup_places
      (fun k literal => ⟨⟨k.1, k.2, literal⟩, rfl, rfl⟩) k
  · rw [h'.initializers]
    exact Table.getLast?_filter_map (fun _ => mem_initializers) hnormal.nodup_classes
      (fun k body => ⟨(k, body), rfl, rfl⟩) k

/-- The document of a graph that was read can be read again. -/
theorem exists_ofDocument_toDocument (h : ofDocument L d = .ok g) : ∃ g', ofDocument L g.toDocument = .ok g' := by
  have hjoined := ofDocument_eq_ok_iff.mp ⟨g, h⟩
  have hnormal := normalizesTo (holds_of_ofDocument h)
  refine ofDocument_eq_ok_iff.mpr fun edge hedge => ?_
  rw [hnormal.edges, List.mem_eraseDups] at hedge
  rw [GraphDocument.statementIds, hnormal.statements]
  exact hjoined edge hedge

/-- Reading a document fails exactly if an edge has an end that is no statement, and the error names the first such
end. Otherwise the document of the graph is the normal form of the one that was read, and reading it again gives a
graph with the same document and the same answers. -/
theorem ofDocument_round_trip (L : DigraphLibrary Statement) (d : GraphDocument) :
    ((∃ err, ofDocument L d = .error err) ↔
      ∃ edge ∈ d.edges, edge.1 ∉ d.statementIds ∨ edge.2 ∉ d.statementIds) ∧
    (∀ err, ofDocument L d = .error err →
      ∃ id, d.ends.find? (· ∉ d.statementIds) = some id ∧ err = .unknownStatement id) ∧
    ∀ g, ofDocument L d = .ok g → d.NormalizesTo g.toDocument ∧
      ∃ g', ofDocument L g.toDocument = .ok g' ∧ g'.toDocument = g.toDocument ∧ g'.AnswersAs g := by
  refine ⟨?_, fun err herr => ?_, fun g hg => ?_⟩
  · have hfails : (∃ err, ofDocument L d = .error err) ↔ ¬ ∃ g, ofDocument L d = .ok g := by
      cases ofDocument L d <;> simp
    rw [hfails, ofDocument_eq_ok_iff]
    push Not
    exact exists_congr fun edge => and_congr_right fun _ => imp_iff_not_or
  · have hcases := ofDocument_cases L d
    split at hcases
    · rename_i id hfind
      exact ⟨id, hfind, Except.error.inj (herr.symm.trans hcases)⟩
    · obtain ⟨g, hg, _⟩ := hcases
      cases herr.symm.trans hg
  · have hholds := holds_of_ofDocument hg
    obtain ⟨g', hg'⟩ := exists_ofDocument_toDocument hg
    have hholds' := holds_of_ofDocument hg'
    refine ⟨normalizesTo hholds, g', hg', ?_, answersAs hholds hholds'⟩
    exact (normalizesTo hholds').unique (normalizesTo hholds).self

/-- Two statements with one identifier, an edge that comes twice, and two literals of one slot. -/
def repeatedDocument : GraphDocument where
  statements := [⟨7, 0, .normalReturnCallee 1⟩, ⟨5, 0, .phi 1 [none]⟩, ⟨7, 0, .phi 2 [some 1]⟩, ⟨6, 0, .phi 3 [some 1]⟩]
  edges := [(7, 6), (7, 5), (5, 6), (7, 6)]
  literals := [⟨0, 2, .text "late"⟩, ⟨0, 1, .text "first"⟩, ⟨0, 1, .constant (.int 3)⟩]

/-- The later one of the statements is found, and the edges lead to the same places in the same order after reading the
document of the graph again. -/
theorem repeatedDocument_round_trip :
    ∃ g g' : DependenceGraph (.edgeList Statement),
      ofDocument _ repeatedDocument = .ok g ∧ ofDocument _ g.toDocument = .ok g' ∧ g'.toDocument = g.toDocument ∧
      g.toDocument = { repeatedDocument with
        edges := [(7, 6), (7, 5), (5, 6)], literals := [⟨0, 1, .constant (.int 3)⟩, ⟨0, 2, .text "late"⟩] } ∧
      g'.statement? 7 = some ⟨7, 0, .phi 2 [some 1]⟩ ∧ g'.successors 7 = [6, 5] ∧ g'.predecessors 6 = [7, 5] := by
  obtain ⟨g, hg⟩ : ∃ g : DependenceGraph (.edgeList Statement), ofDocument _ repeatedDocument = .ok g :=
    ofDocument_eq_ok_iff.mpr (by simp [repeatedDocument, GraphDocument.statementIds])
  have hread : (ofDocument (.edgeList Statement) repeatedDocument).toOption.map (fun g =>
      (g.toDocument, g.statement? 7, g.successors 7, g.predecessors 6)) = some ({ repeatedDocument with
        edges := [(7, 6), (7, 5), (5, 6)], literals := [⟨0, 1, .constant (.int 3)⟩, ⟨0, 2, .text "late"⟩] },
        some ⟨7, 0, .phi 2 [some 1]⟩, [6, 5], [7, 5]) := by decide +kernel
  rw [hg] at hread
  simp only [Except.toOption, Option.map_some, Option.some.injEq, Prod.mk.injEq] at hread
  obtain ⟨hdocument, hstatement, hsuccessors, hpredecessors⟩ := hread
  obtain ⟨_, g', hg', hsame, hanswers⟩ := (ofDocument_round_trip (.edgeList Statement) repeatedDocument).2.2 g hg
  refine ⟨g, g', hg, hg', hsame, hdocument, ?_, ?_, ?_⟩
  · rw [hanswers.statement?, hstatement]
  · rw [hanswers.successors, hsuccessors]
  · rw [hanswers.predecessors, hpredecessors]

end DependenceGraph

end SinkFlow
