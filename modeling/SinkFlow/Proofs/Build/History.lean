import Mathlib.Data.List.Nodup
import Mathlib.Data.List.Perm.Subperm
import Mathlib.Data.List.SplitBy
import SinkFlow.Proofs.Build.Step

/-!
What a build handles, run by run. A run begins with its root and comes to no other one. A statement that is handled for
the first time has all its successors handled in the same run, and a statement that receives a value over a channel is
related to every one that was sent over it earlier in the run and not cleared in between.
-/

namespace SinkFlow

/-! ## Channels along a run -/

/-- A statement leaves nothing on a channel of what was sent before. -/
def Setting.Clears (t : Setting) (channel : Channel) (id : StatementId) : Prop :=
  ∃ statement, t.program.statement? id = some statement ∧ statement.cleared? = some channel

/-- Among the statements of a run, last one first, one sends a value over a channel, and none after it clears it. -/
inductive Setting.Pending (t : Setting) (channel : Channel) : ProcedureId → ValueSlot → List StatementId → Prop where
  | sent {id : StatementId} {statement : Statement} {slot : ValueSlot} {run : List StatementId}
      (hstatement : t.program.statement? id = some statement) (hsent : statement.sent? = some (channel, slot)) :
      t.Pending channel statement.procedure slot (id :: run)
  | kept {id : StatementId} {q : ProcedureId} {slot : ValueSlot} {run : List StatementId}
      (hkept : ¬ t.Clears channel id) (h : t.Pending channel q slot run) : t.Pending channel q slot (id :: run)

theorem Setting.Pending.append {t : Setting} {channel : Channel} {q : ProcedureId} {slot : ValueSlot}
    {recent run : List StatementId} (h : t.Pending channel q slot run) (hkept : ∀ id ∈ recent, ¬ t.Clears channel id) :
    t.Pending channel q slot (recent ++ run) := by
  induction recent with
  | nil => exact h
  | cons id recent ih =>
      exact .kept (hkept id List.mem_cons_self) (ih fun k hk => hkept k (List.mem_cons_of_mem _ hk))

/-- The nodes of values of two procedures are related by an equality, or one. -/
def FlowGraph.Equated (g : FlowGraph) (q : ProcedureId) (target : ValueSlot) (p : ProcedureId) (source : ValueSlot) :
    Prop :=
  ∃ n m, g.valueNode? q target = some n ∧ g.valueNode? p source = some m ∧ g.Related n .eq m

theorem FlowGraph.Equated.mono {g g' : FlowGraph} {q p : ProcedureId} {target source : ValueSlot} (h : g.Extends g')
    (he : g.Equated q target p source) : g'.Equated q target p source := by
  obtain ⟨n, m, hn, hm, hr⟩ := he
  exact ⟨n, m, h.values _ _ _ hn, h.values _ _ _ hm, hr.mono h⟩

theorem FlowGraph.equated_iff {g : FlowGraph} {q p : ProcedureId} {target source : ValueSlot} :
    g.Equated q target p source ↔ ∃ n ∈ g.valueNode? q target, ∃ m ∈ g.valueNode? p source,
      n = m ∨ ∃ c ∈ g.constraints.toList, c.target = n ∧ c.kind = .eq ∧ c.source = m := by
  constructor
  · rintro ⟨n, m, hn, hm, hr⟩
    refine ⟨n, hn, m, hm, hr.imp_right ?_⟩
    rintro ⟨path, hc⟩
    exact ⟨_, Array.mem_toList_iff.mpr hc, rfl, rfl, rfl⟩
  · rintro ⟨n, hn, m, hm, hr⟩
    refine ⟨n, m, hn, hm, hr.imp_right ?_⟩
    rintro ⟨⟨_, _, _, path⟩, hc, rfl, rfl, rfl⟩
    exact ⟨path, Array.mem_toList_iff.mp hc⟩

instance {g : FlowGraph} {q p : ProcedureId} {target source : ValueSlot} : Decidable (g.Equated q target p source) :=
  decidable_of_iff _ FlowGraph.equated_iff.symm

namespace Build

variable {t : Setting} {s s' : BuildState} {g g' : FlowGraph} {id root : StatementId} {expand : Bool}
  {run base queue visited : List StatementId}

/-- All that is pending after the statements of a run is remembered. -/
def Remembers (t : Setting) (run : List StatementId) (s : BuildState) : Prop :=
  ∀ channel q slot, t.Pending channel q slot run →
    ∃ a ∈ s.pairing.recalled channel, s.graph.valueNode? q slot = some a.1

/-- What a statement of a run receives is equated with all that was pending before. -/
def Paired (t : Setting) (run : List StatementId) (g : FlowGraph) : Prop :=
  ∀ newer id older, run = newer ++ id :: older → ∀ statement channel slot, t.program.statement? id = some statement →
    statement.received? = some (channel, slot) → ∀ p sent, t.Pending channel p sent older →
      g.Equated statement.procedure slot p sent

theorem Remembers.step (h : Remembers t run s) (hext : s.graph.Extends s'.graph) (hp : Processed t id s expand s') :
    Remembers t (record t id run) s' := by
  intro channel q slot hpending
  cases hstatement : t.program.statement? id with
  | none =>
      obtain ⟨a, ha, hn⟩ := h channel q slot (by simpa [record, hstatement] using hpending)
      exact ⟨a, hp.unknown hstatement ▸ ha, hext.values _ _ _ hn⟩
  | some statement =>
      have hrecalled := hp.recalled statement hstatement
      simp only [record, hstatement, Option.isSome_some, if_true] at hpending
      cases hpending with
      | sent hsender hsent =>
          cases hstatement.symm.trans hsender
          exact hrecalled.sends channel slot hsent
      | kept hkept hpending =>
          obtain ⟨a, ha, hn⟩ := h channel q slot hpending
          have hkept : statement.cleared? ≠ some channel := fun hclears => hkept ⟨statement, hstatement, hclears⟩
          exact ⟨a, hrecalled.keeps channel hkept ha, hext.values _ _ _ hn⟩

theorem Paired.mono (h : Paired t run g) (hext : g.Extends g') : Paired t run g' :=
  fun newer id older hrun statement channel slot hstatement hreceived p sent hpending =>
    (h newer id older hrun statement channel slot hstatement hreceived p sent hpending).mono hext

theorem Paired.step (h : Paired t run s.graph) (hremembers : Remembers t run s) (hext : s.graph.Extends s'.graph)
    (hp : Processed t id s expand s') : Paired t (record t id run) s'.graph := by
  intro newer k older hrun statement channel slot hstatement hreceived p sent hpending
  unfold record at hrun
  split at hrun
  · rcases List.append_eq_cons_iff.mp hrun.symm with ⟨rfl, hcons⟩ | ⟨newer', rfl, hrest⟩
    · -- The last statement receives what is remembered, so what is pending.
      cases hcons
      obtain ⟨a, ha, hm⟩ := hremembers channel p sent hpending
      obtain ⟨n, hn, hr⟩ := (hp.recalled statement hstatement).receives channel slot hreceived a ha
      exact ⟨n, a.1, hn, hext.values _ _ _ hm, hr⟩
    · exact h.mono hext newer' k older hrest statement channel slot hstatement hreceived p sent hpending
  · exact h.mono hext newer k older hrun statement channel slot hstatement hreceived p sent hpending

/-! ## The queue -/

/-- The statements that are queued after one was handled. -/
def fresh (t : Setting) (id : StatementId) (visited : List StatementId) (expand : Bool) : List StatementId :=
  if expand then ((t.program.successors id).filter (· ∉ visited)).eraseDups else []

@[simp] theorem mem_fresh {k : StatementId} :
    k ∈ fresh t id visited expand ↔ expand ∧ k ∈ t.program.successors id ∧ k ∉ visited := by
  cases expand <;> simp [fresh]

theorem explore_cons (t : Setting) (limit : Nat) (id : StatementId) (queue visited : List StatementId) :
    explore t (limit + 1) (id :: queue) visited = process t id >>= fun expand =>
      explore t limit (queue ++ fresh t id visited expand) (visited ++ fresh t id visited expand) := by
  rw [explore]
  congr 1
  funext expand
  cases expand <;> simp [fresh]

/-- The queue of a run: all that waits can be reached, and what was ever queued waits or was handled. Nothing is queued
twice, so nothing is handled twice. -/
structure Frontier (t : Setting) (root : StatementId) (run queue visited : List StatementId) : Prop where
  begun : root ∈ visited
  reach : ∀ id ∈ queue, t.program.Reaches id
  queued : ∀ id ∈ visited, (t.program.statement? id).isSome → id ∈ run ∨ id ∈ queue
  nodup : visited.Nodup
  once : (run ++ queue).Nodup
  listed : run ++ queue ⊆ visited

namespace Frontier

/-- There are no more statements to queue than identifiers. -/
theorem length_le (h : Frontier t root run queue visited) : visited.length ≤ UInt32.size := by
  have hnodup : (visited.map UInt32.toNat).Nodup := h.nodup.map fun _ _ => UInt32.toNat.inj
  have hbound : visited.map UInt32.toNat ⊆ List.range UInt32.size := by
    intro n hn
    obtain ⟨id, _, rfl⟩ := List.mem_map.mp hn
    exact List.mem_range.mpr id.toNat_lt_size
  simpa using (List.subperm_of_subset hnodup hbound).length_le

/-- What was handled or waited before has been handled or still waits, if it can be looked up. -/
theorem handled_or_waits {k : StatementId} {new : List StatementId} (hknown : (t.program.statement? k).isSome)
    (hk : k ∈ run ∨ k ∈ id :: queue) : k ∈ record t id run ∨ k ∈ queue ++ new := by
  rcases hk with hk | hk
  · exact .inl (mem_record.mpr (.inl hk))
  · rcases List.mem_cons.mp hk with rfl | hk
    · exact .inl (mem_record.mpr (.inr ⟨rfl, hknown⟩))
    · exact .inr (List.mem_append_left _ hk)

/-- The statements that lead on from the first one, and were not queued before, are queued. -/
theorem step (h : Frontier t root run (id :: queue) visited) (hknown : expand → (t.program.statement? id).isSome) :
    Frontier t root (record t id run) (queue ++ fresh t id visited expand) (visited ++ fresh t id visited expand) := by
  have hnew : (fresh t id visited expand).Nodup := by
    unfold fresh
    split
    · exact nodup_eraseDups _
    · exact List.nodup_nil
  have hapart : ∀ k ∈ visited, k ∉ fresh t id visited expand := fun k hk hfresh => (mem_fresh.mp hfresh).2.2 hk
  have hold : (record t id run ++ queue).Sublist (id :: (run ++ queue)) := by
    unfold record
    split
    · exact .refl _
    · exact List.sublist_cons_self _ _
  have hmoved : (id :: (run ++ queue)).Perm (run ++ id :: queue) := List.perm_middle.symm
  have hlisted : record t id run ++ queue ⊆ visited :=
    fun k hk => h.listed (hmoved.mem_iff.mp (hold.subset hk))
  refine ⟨List.mem_append_left _ h.begun, fun k hk => ?_, fun k hk hk' => ?_, ?_, ?_, fun k hk => ?_⟩
  · rcases List.mem_append.mp hk with hk | hk
    · exact h.reach k (List.mem_cons_of_mem _ hk)
    · obtain ⟨hexpand, hnext, _⟩ := mem_fresh.mp hk
      exact .edge (h.reach id List.mem_cons_self) (hknown hexpand) hnext
  · rcases List.mem_append.mp hk with hk | hk
    · exact handled_or_waits hk' (h.queued k hk hk')
    · exact .inr (List.mem_append_right _ hk)
  · exact List.nodup_append.mpr ⟨h.nodup, hnew, fun k hk k' hk' heq => hapart k hk (heq ▸ hk')⟩
  · rw [← List.append_assoc]
    refine List.nodup_append.mpr ⟨(hmoved.nodup_iff.mpr h.once).sublist hold, hnew, fun k hk k' hk' heq => ?_⟩
    exact hapart k (hlisted hk) (heq ▸ hk')
  · rw [← List.append_assoc] at hk
    rcases List.mem_append.mp hk with hk | hk
    · exact List.mem_append_left _ (hlisted hk)
    · exact List.mem_append_right _ hk

end Frontier

/-! ## Runs -/

/-- What a run leaves that handled some statements, last one first, after others had been handled before it. -/
structure Run (t : Setting) (g : FlowGraph) (run base : List StatementId) : Prop where
  begins : ∃ inner, ∃ root ∈ t.program.roots, run = inner ++ [root] ∧ ∀ id ∈ inner, id ∉ t.program.roots
  together : ∀ id ∈ run, id ∉ base → ∀ next ∈ t.program.successors id, (t.program.statement? next).isSome →
    next ∈ run
  paired : Paired t run g
  once : run.Nodup

/-- The same on the way, while some statements wait. -/
structure Running (t : Setting) (root : StatementId) (base run queue visited : List StatementId) (s : BuildState) :
    Prop where
  log : s.handled = run ++ base
  frontier : Frontier t root run queue visited
  begins : run = [] ∧ (queue = [root] ∨ queue = []) ∨
    ∃ inner, run = inner ++ [root] ∧ ∀ id ∈ inner ++ queue, id ∉ t.program.roots
  together : ∀ id ∈ run, id ∉ base → ∀ next ∈ t.program.successors id, (t.program.statement? next).isSome →
    next ∈ run ∨ next ∈ queue
  remembers : Remembers t run s
  paired : Paired t run s.graph

namespace Running

theorem start (hroot : root ∈ t.program.roots) (s : BuildState) :
    Running t root s.handled [] [root] [root] s where
  log := rfl
  frontier := ⟨List.mem_singleton_self root, by simpa using .root hroot, fun _ hid _ => .inr hid,
    List.nodup_singleton root, List.nodup_singleton root, by simp⟩
  begins := .inl ⟨rfl, .inl rfl⟩
  together := nofun
  remembers _ _ _ hpending := by cases hpending
  paired newer id older hrun := by simp at hrun

theorem step (h : Running t root base run (id :: queue) visited s) (hgate : s.gate.counts.keys ⊆ s.handled)
    (hext : s.graph.Extends s'.graph) (hp : Processed t id s expand s') :
    Running t root base (record t id run) (queue ++ fresh t id visited expand) (visited ++ fresh t id visited expand)
      s' where
  log := by rw [hp.handled, h.log, record_append]
  frontier := h.frontier.step hp.known
  begins := by
    have hfresh : ∀ k ∈ fresh t id visited expand, k ∉ t.program.roots :=
      fun k hk => Program.not_mem_roots (mem_fresh.mp hk).2.1
    rcases h.begins with ⟨rfl, hqueue | hqueue⟩ | ⟨inner, rfl, hinner⟩
    · -- The root itself; if it cannot be looked up, the run ends with nothing handled.
      cases hqueue
      by_cases hknown : (t.program.statement? id).isSome
      · exact .inr ⟨[], by simp [record, hknown], hfresh⟩
      · have hexpand : ¬ expand := fun hexpand => hknown (hp.known hexpand)
        exact .inl ⟨by simp [record, hknown], .inr (by simp [fresh, hexpand])⟩
    · cases hqueue
    · refine .inr ⟨record t id inner, record_append t id inner [root], fun k hk => ?_⟩
      simp only [List.mem_append, mem_record] at hk
      rcases hk with (hk | ⟨rfl, _⟩) | hk | hk
      · exact hinner k (by simp [hk])
      · exact hinner k (by simp)
      · exact hinner k (by simp [hk])
      · exact hfresh k hk
  together := by
    intro k hk hnew next hnext hknown
    by_cases hold : k ∈ run
    · exact Frontier.handled_or_waits hknown (h.together k hold hnew next hnext hknown)
    · obtain ⟨rfl, hid⟩ := (mem_record.mp hk).resolve_left hold
      -- The gate only counts statements that were handled, so this one is let through.
      have hexpand : expand := hp.first hid fun hcounted => by
        have hhandled := hgate hcounted
        simp [h.log, hold, hnew] at hhandled
      by_cases hvisited : next ∈ visited
      · exact Frontier.handled_or_waits hknown (h.frontier.queued next hvisited hknown)
      · exact .inr (List.mem_append_right _ (mem_fresh.mpr ⟨hexpand, hnext, hvisited⟩))
  remembers := h.remembers.step hext hp
  paired := h.paired.step h.remembers hext hp

/-- A run ends when nothing waits. If its root cannot be looked up, it has handled nothing. -/
theorem done (h : Running t root base run [] visited s) (hroot : root ∈ t.program.roots) :
    run = [] ∨ Run t s.graph run base := by
  rcases h.begins with ⟨hempty, _⟩ | ⟨inner, hrun, hinner⟩
  · exact .inl hempty
  · refine .inr ⟨⟨inner, root, hroot, hrun, by simpa using hinner⟩, ?_, h.paired, by simpa using h.frontier.once⟩
    exact fun id hid hnew next hnext hknown => (h.together id hid hnew next hnext hknown).resolve_right nofun

end Running

/-! ## Histories -/

/-- The runs of a build, last one first. -/
inductive History (t : Setting) (g : FlowGraph) : List (List StatementId) → Prop where
  | none : History t g []
  | run {run : List StatementId} {runs : List (List StatementId)} (h : History t g runs)
      (hrun : Run t g run runs.flatten) : History t g (run :: runs)

namespace History

variable {runs : List (List StatementId)}

theorem mono (h : History t g runs) (hext : g.Extends g') : History t g' runs := by
  induction h with
  | none => exact .none
  | run _ hrun ih => exact .run ih { hrun with paired := hrun.paired.mono hext }

theorem exists_run (h : History t g runs) (hrun : run ∈ runs) : ∃ base, Run t g run base := by
  induction h with
  | none => cases hrun
  | run _ hlast ih =>
      rcases List.mem_cons.mp hrun with rfl | hrun
      · exact ⟨_, hlast⟩
      · exact ih hrun

/-- Some run handles a statement together with all that it leads on to: the one in which it is reached first. -/
theorem together (h : History t g runs) (hid : id ∈ runs.flatten) :
    ∃ run ∈ runs, id ∈ run ∧
      ∀ next ∈ t.program.successors id, (t.program.statement? next).isSome → next ∈ run := by
  induction h with
  | none => cases hid
  | run _ hlast ih =>
      rename_i run runs _
      by_cases hold : id ∈ runs.flatten
      · obtain ⟨run', hrun', hall⟩ := ih hold
        exact ⟨run', List.mem_cons_of_mem _ hrun', hall⟩
      · have hid : id ∈ run := (List.mem_append.mp hid).resolve_right hold
        exact ⟨run, List.mem_cons_self, hid, hlast.together id hid hold⟩

/-- A statement is handled as often as there are runs that come to it. -/
theorem count_flatten (h : History t g runs) (id : StatementId) : runs.flatten.count id = runs.countP (id ∈ ·) := by
  induction h with
  | none => rfl
  | run _ hlast ih =>
      rw [List.flatten_cons, List.count_append, List.countP_cons, ih, hlast.once.count]
      simp only [decide_eq_true_eq, Nat.add_comm]

/-- The runs can be told apart in the list of all statements, since each of them has its root where it begins. -/
theorem splitBy_flatten (h : History t g runs) :
    runs.flatten.splitBy (fun id _ => decide (id ∉ t.program.roots)) = runs := by
  have hbegins : ∀ run ∈ runs, ∃ inner, ∃ root ∈ t.program.roots, run = inner ++ [root] ∧
      ∀ id ∈ inner, id ∉ t.program.roots := by
    intro run hrun
    obtain ⟨_, hrun⟩ := h.exists_run hrun
    exact hrun.begins
  refine List.splitBy_flatten ?_ ?_ (List.pairwise_of_forall_mem_list ?_).isChain
  · intro hempty
    obtain ⟨inner, root, _, hrun, _⟩ := hbegins [] hempty
    simp at hrun
  · intro run hrun
    obtain ⟨inner, root, _, rfl, hinner⟩ := hbegins run hrun
    have hnot : ∀ id ∈ inner, decide (id ∉ t.program.roots) = true := fun id hid => by simpa using hinner id hid
    refine (List.pairwise_append.mpr ⟨?_, List.pairwise_singleton _ _, fun id hid _ _ => hnot id hid⟩).isChain
    exact List.pairwise_of_forall_mem_list fun id hid _ _ => hnot id hid
  · intro run hrun next hnext
    obtain ⟨inner, root, hroot, rfl, _⟩ := hbegins run hrun
    obtain ⟨inner', root', _, rfl, _⟩ := hbegins next hnext
    exact ⟨by simp, by simp, by simpa using hroot⟩

end History

end Build

end SinkFlow
