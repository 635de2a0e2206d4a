import SinkFlow.Flow.Edit

/-!
What computations that change a state and may fail make sure of. A specification says what holds of the result
and the state after a success; it follows the structure of the computation.
-/

namespace SinkFlow

variable {σ ε α β : Type} {P : σ → Prop} {Q : α → σ → Prop} {R : β → σ → Prop} {I : σ → Prop}

theorem eq_ok_of_toOption {x : Except ε α} {a : α} (h : x.toOption = some a) : x = .ok a := by
  cases x <;> cases h
  rfl

theorem exists_of_map_eq_ok {x : Except ε α} {f : α → β} {b : β} (h : x.map f = .ok b) : ∃ a, x = .ok a ∧ f a = b := by
  cases x with
  | error e => cases h
  | ok a => exact ⟨a, rfl, Except.ok.inj h⟩

theorem exists_of_bind_eq_ok {x : Except ε α} {f : α → Except ε β} {b : β} (h : x >>= f = .ok b) :
    ∃ a, x = .ok a ∧ f a = .ok b := by
  cases x with
  | error e => cases h
  | ok a => exact ⟨a, rfl, h⟩

theorem run_bind (x : ExceptT ε (StateM σ) α) (f : α → ExceptT ε (StateM σ) β) (s : σ) :
    (x >>= f).run s = match x.run s with
      | (.ok a, s') => (f a).run s'
      | (.error e, s') => (.error e, s') := by
  simp only [Bind.bind, ExceptT.bind, ExceptT.mk, ExceptT.run, StateT.bind, ExceptT.bindCont]
  rcases x s with ⟨r, s'⟩
  cases r <;> rfl

theorem run_get_bind (f : σ → ExceptT ε (StateM σ) β) (s : σ) : (get >>= f).run s = (f s).run s := rfl

theorem run_modify_bind (g : σ → σ) (f : PUnit → ExceptT ε (StateM σ) β) (s : σ) :
    (modify g >>= f).run s = (f ⟨⟩).run (g s) := rfl

/-- Whenever a computation that starts in a state with `P` succeeds, its result and the state it leaves have `Q`. -/
def Ensures (P : σ → Prop) (x : ExceptT ε (StateM σ) α) (Q : α → σ → Prop) : Prop :=
  ∀ s a s', P s → x.run s = (.ok a, s') → Q a s'

/-- A computation keeps a property of the state. -/
abbrev Keeps (I : σ → Prop) (x : ExceptT ε (StateM σ) α) : Prop := Ensures I x fun _ s => I s

namespace Ensures

theorem pure {a : α} (h : ∀ s, P s → Q a s) : Ensures P (Pure.pure a : ExceptT ε (StateM σ) α) Q := by
  intro s b s' hs hrun
  cases hrun
  exact h s hs

theorem keeps_pure {a : α} : Keeps I (Pure.pure a : ExceptT ε (StateM σ) α) := pure fun _ h => h

theorem bind {x : ExceptT ε (StateM σ) α} {f : α → ExceptT ε (StateM σ) β} (hx : Ensures P x Q)
    (hf : ∀ a, Ensures (Q a) (f a) R) : Ensures P (x >>= f) R := by
  intro s b s' hs hrun
  rw [run_bind] at hrun
  rcases hxs : x.run s with ⟨r, s₁⟩
  rw [hxs] at hrun
  cases r with
  | ok a => exact hf a s₁ b s' (hx s a s₁ hs hxs) hrun
  | error e => cases hrun

theorem get_bind {f : σ → ExceptT ε (StateM σ) β} (h : ∀ s, P s → Ensures P (f s) R) :
    Ensures P (get >>= f) R := fun s b s' hs hrun => h s hs s b s' hs hrun

theorem keeps_modify {f : σ → σ} (h : ∀ s, I s → I (f s)) : Keeps I (modify f : ExceptT ε (StateM σ) PUnit) := by
  intro s b s' hs hrun
  cases hrun
  exact h s hs

theorem throw {e : ε} : Ensures P (throw e : ExceptT ε (StateM σ) α) Q := by
  intro s b s' _ hrun
  cases hrun

theorem bind_of {x : ExceptT ε (StateM σ) α} {f : α → ExceptT ε (StateM σ) β} {q : α → Prop}
    (hx : Ensures P x fun a s => P s ∧ q a) (hf : ∀ a, q a → Ensures P (f a) R) : Ensures P (x >>= f) R :=
  bind hx fun a s b s' hs hrun => hf a hs.2 s b s' hs.1 hrun

theorem map {x : ExceptT ε (StateM σ) α} {f : α → β} (hx : Keeps I x) : Keeps I (f <$> x) := by
  rw [← bind_pure_comp]
  exact bind hx fun _ => keeps_pure

theorem forM {as : List α} {f : α → ExceptT ε (StateM σ) PUnit} (h : ∀ a ∈ as, Keeps I (f a)) :
    Keeps I (as.forM f) := by
  induction as with
  | nil => exact keeps_pure
  | cons a as ih => exact bind (h a List.mem_cons_self) fun _ => ih fun b hb => h b (List.mem_cons_of_mem a hb)

end Ensures

namespace Edit

variable {P : FlowGraph → Prop} {Q : α → FlowGraph → Prop}

theorem ensures_change {f : FlowGraph → α × FlowGraph} (h : ∀ g, P g → Q (f g).1 (f g).2) :
    Ensures P (Edit.change f) Q := by
  intro g a g' hg hrun
  cases hrun
  exact h g hg

theorem ensures_attempt {f : FlowGraph → Except AnalysisError (α × FlowGraph)}
    (h : ∀ g a g', P g → f g = .ok (a, g') → Q a g') : Ensures P (Edit.attempt f) Q := by
  intro g a g' hg hrun
  cases hok : f g with
  | error e =>
      have he : (Edit.attempt f).run g = (.error e, g) := by
        simp only [Edit.attempt, ExceptT.run, ExceptT.mk, hok]
      rw [he] at hrun
      cases hrun
  | ok r =>
      have hr : (Edit.attempt f).run g = (.ok r.1, r.2) := by
        simp only [Edit.attempt, ExceptT.run, ExceptT.mk, hok]
      rw [hr] at hrun
      cases hrun
      exact h g r.1 r.2 hg hok

theorem ensures_attemptUpdate {Q : Unit → FlowGraph → Prop} {f : FlowGraph → Except AnalysisError FlowGraph}
    (h : ∀ g g', P g → f g = .ok g' → Q () g') : Ensures P (Edit.attemptUpdate f) Q := by
  refine ensures_attempt ?_
  intro g a g' hg hf
  obtain ⟨g₁, hok, hf⟩ := exists_of_map_eq_ok hf
  cases hf
  exact h g g' hg hok

theorem keeps_update {f : FlowGraph → FlowGraph} (h : ∀ g, P g → P (f g)) : Keeps P (Edit.update f) :=
  ensures_change h

end Edit

end SinkFlow
