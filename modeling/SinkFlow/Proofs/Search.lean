import SinkFlow.Proofs.Search.Expansion

/-!
Field searches over graphs that are fully traced: whatever a search finds is fully traced, since it puts together
traces of the graphs and cuts them.
-/

namespace SinkFlow

namespace FlowGraph

theorem upToPut_subset (g : FlowGraph) (field : FieldSignature) (path : Path) : g.upToPut field path ⊆ path := by
  unfold upToPut
  split
  · exact List.take_subset _ _
  · exact List.Subset.refl _

theorem fromGet_subset (g : FlowGraph) (field : FieldSignature) (path : Path) : g.fromGet field path ⊆ path := by
  unfold fromGet
  split
  · exact List.drop_subset _ _
  · exact List.Subset.refl _

end FlowGraph

/-- Every graph of a registry is fully traced. -/
def Registry.Traced (P : StatementRef → Prop) (r : Registry) : Prop := ∀ e g, r.get? e = some g → g.Traced P

/-- What a search has found, and what it carries along to the next level, is fully traced. -/
structure Search.Traced (P : StatementRef → Prop) (s : Search) : Prop where
  found : s.found.Traced P
  next : ∀ state ∈ s.next, Trace.LeadsOver P state.carried

namespace Search

variable {P : StatementRef → Prop} {s s' : Search} {registry : Registry} {direction : Direction} {more : Bool}
  {state : SearchState} {place : EntrypointId × NodeId} {hop : Hop}

theorem leadsOver_splice {t localTrace carried : Trace} (ht : Trace.LeadsOver P t)
    (hl : Trace.LeadsOver P localTrace) (hc : Trace.LeadsOver P carried) (direction : Direction) (g : FlowGraph)
    (field : FieldSignature) : Trace.LeadsOver P (splice direction g field t localTrace carried) := by
  cases direction with
  | backward => exact ((ht.map (g.upToPut_subset field)).join hl).join hc
  | forward => exact (hc.join hl).join (ht.map (g.fromGet_subset field))

theorem leadsOver_carry {localTrace carried : Trace} (hl : Trace.LeadsOver P localTrace)
    (hc : Trace.LeadsOver P carried) (direction : Direction) :
    Trace.LeadsOver P (carry direction localTrace carried) := by
  cases direction with
  | backward => exact hl.join hc
  | forward => exact hc.join hl

theorem leadsOver_hop (hr : registry.Traced P) (h : registry.Crosses direction place hop) :
    Trace.LeadsOver P hop.trace := by
  obtain ⟨here, hhere, hknown⟩ := h.door
  obtain ⟨g, hg, hrecord⟩ := Option.bind_eq_some_iff.mp hhere
  have hdoor : (direction.door hop.field).facet ≠ .constants := by cases direction <;> nofun
  exact (hr _ g hg).record? hrecord _ _ hdoor hknown

theorem Progress.traced (hr : registry.Traced P) (hc : Trace.LeadsOver P state.carried)
    (hp : Progress registry direction more state s s') (h : s.Traced P) : s'.Traced P where
  found := by
    refine hp.found (fun hop g record i t f ht hg hrecord _ hknown hf => hf.add fun hi => ?_) h.found
    have hremote := (hr _ g hg).record? hrecord i t hi hknown
    exact leadsOver_splice hremote (leadsOver_hop hr ht.crosses) hc direction g hop.field
  next := hp.next (fun _ _ ht => leadsOver_carry (leadsOver_hop hr ht.crosses) hc direction) h.next

/-- A level only adds to what was found, and the next one starts with what it carries along. -/
theorem Traced.run (hr : registry.Traced P) (direction : Direction) (levels depth : Nat) (h : s.Traced P) :
    (Search.run registry direction levels depth s.next s).Traced P := by
  have hlevel : ∀ more depth (s : Search), s.Traced P → (level registry direction more depth s).Traced P := by
    intro more depth s hs
    refine level_keeps (I := Traced P) (fun state hstate s₁ s₂ hp h₁ => ?_) ⟨hs.found, nofun⟩
    exact hp.traced hr (hs.next state hstate) ⟨h₁.found, h₁.next⟩
  obtain ⟨_, _, hend, _⟩ := run_keeps (P := fun _ _ s => s.Traced P) (fun depth _ s _ _ hs => hlevel _ depth s hs)
    levels depth [] s rfl h
  exact hend

end Search

theorem Registry.Traced.search {P : StatementRef → Prop} {r : Registry} {known : Facts} (hr : r.Traced P)
    (hk : known.Traced P) (maxDepth : Nat) (entrypoint : EntrypointId) (node : NodeId) (direction : Direction) :
    (r.search maxDepth entrypoint node direction known).1.Traced P := by
  rw [Registry.search_eq]
  have hstart : Search.Traced P (Search.opening (entrypoint, node) known) := by
    refine ⟨hk, fun state hs => ?_⟩
    rw [List.mem_singleton.mp hs]
    exact .nil
  exact (hstart.run hr direction _ 0).found

end SinkFlow
