import SinkFlow.Proofs.Flow.Edit

/-!
Where computations that change a state and may fail end. A specification of a computation from a state says what
holds of its result and of the state after a success, and of the error after a failure. States follow a course: what
was so in an earlier state goes on to be so in a later one, and every success moves along the course. Some computations
move along it even when they fail.
-/

namespace SinkFlow

variable {σ ε α β : Type}

/-- A relation between the earlier and the later states of a computation. -/
structure Course (σ : Type) where
  leads : σ → σ → Prop
  refl : ∀ s, leads s s
  trans : ∀ {s s' s''}, leads s s' → leads s' s'' → leads s s''

/-- The course on which every state may follow every other one. -/
def Course.free : Course σ := ⟨fun _ _ => True, fun _ => trivial, fun _ _ => trivial⟩

/-- The course on which a property of the state, once it holds, goes on to hold. -/
def Course.keeping (I : σ → Prop) : Course σ := ⟨fun s s' => I s → I s', fun _ => id, fun h h' => h' ∘ h⟩

/-- The course of states that are seen through a function. -/
def Course.along {τ : Type} (C : Course σ) (f : τ → σ) : Course τ where
  leads s s' := C.leads (f s) (f s')
  refl s := C.refl (f s)
  trans := C.trans

/-- A computation from a state either succeeds, moves along the course and makes sure of `Q`, or fails with an error
that has `E`. -/
def Course.Ends (C : Course σ) (s : σ) (x : ExceptT ε (StateM σ) α) (Q : α → σ → Prop) (E : ε → Prop) : Prop :=
  match x.run s with
  | (.ok a, s') => C.leads s s' ∧ Q a s'
  | (.error e, _) => E e

namespace Course.Ends

variable {C D : Course σ} {s s' : σ} {x : ExceptT ε (StateM σ) α} {f : α → ExceptT ε (StateM σ) β}
  {Q Q' : α → σ → Prop} {R : β → σ → Prop} {E E' : ε → Prop}

theorem of_ok {a : α} (h : C.Ends s x Q E) (hrun : x.run s = (.ok a, s')) : C.leads s s' ∧ Q a s' := by
  simpa only [Ends, hrun] using h

theorem of_error {e : ε} (h : C.Ends s x Q E) (hrun : x.run s = (.error e, s')) : E e := by
  simpa only [Ends, hrun] using h

theorem intro (hok : ∀ a s', x.run s = (.ok a, s') → C.leads s s' ∧ Q a s')
    (herror : ∀ e s', x.run s = (.error e, s') → E e) : C.Ends s x Q E := by
  unfold Ends
  split
  · exact hok _ _ ‹_›
  · exact herror _ _ ‹_›

theorem mono (h : C.Ends s x Q E) (hleads : ∀ s', C.leads s s' → D.leads s s')
    (hQ : ∀ a s', C.leads s s' → Q a s' → Q' a s') (hE : ∀ e, E e → E' e) : D.Ends s x Q' E' := by
  refine intro (fun a s' hrun => ?_) fun e s' hrun => hE e (h.of_error hrun)
  obtain ⟨hl, hq⟩ := h.of_ok hrun
  exact ⟨hleads s' hl, hQ a s' hl hq⟩

theorem imp (h : C.Ends s x Q E) (hQ : ∀ a s', C.leads s s' → Q a s' → Q' a s') : C.Ends s x Q' E :=
  h.mono (fun _ hl => hl) hQ fun _ he => he

theorem toFree (h : C.Ends s x Q E) : Course.free.Ends s x (fun a s' => C.leads s s' ∧ Q a s') E :=
  h.mono (fun _ _ => trivial) (fun _ _ hl hq => ⟨hl, hq⟩) fun _ he => he

theorem pure {a : α} (h : Q a s) : C.Ends s (Pure.pure a : ExceptT ε (StateM σ) α) Q E := ⟨C.refl s, h⟩

theorem throw {e : ε} (h : E e) : C.Ends s (throw e : ExceptT ε (StateM σ) α) Q E := h

theorem bind (hx : C.Ends s x Q E) (hf : ∀ a s', C.leads s s' → Q a s' → C.Ends s' (f a) R E) :
    C.Ends s (x >>= f) R E := by
  rcases hrun : x.run s with ⟨r, s₁⟩
  cases r with
  | error e =>
      have he := hx.of_error hrun
      simp only [Ends, run_bind, hrun]
      exact he
  | ok a =>
      obtain ⟨hl, hq⟩ := hx.of_ok hrun
      have hrest := hf a s₁ hl hq
      refine intro (fun b s₂ hrun' => ?_) fun e s₂ hrun' => ?_
      · rw [run_bind, hrun] at hrun'
        obtain ⟨hl', hr⟩ := hrest.of_ok hrun'
        exact ⟨C.trans hl hl', hr⟩
      · rw [run_bind, hrun] at hrun'
        exact hrest.of_error hrun'

theorem get_bind {f : σ → ExceptT ε (StateM σ) β} (h : C.Ends s (f s) R E) : C.Ends s (get >>= f) R E := h

theorem modify {f : σ → σ} {Q : PUnit → σ → Prop} (hl : C.leads s (f s)) (hq : Q ⟨⟩ (f s)) :
    C.Ends s (modify f : ExceptT ε (StateM σ) PUnit) Q E := ⟨hl, hq⟩

/-- What each step of a loop makes sure of, and later steps do not undo, holds at its end for all elements. -/
theorem forM {as : List α} {f : α → ExceptT ε (StateM σ) PUnit} {Q : α → σ → Prop}
    (stable : ∀ a s s', C.leads s s' → Q a s → Q a s')
    (h : ∀ a ∈ as, ∀ s', C.leads s s' → C.Ends s' (f a) (fun _ => Q a) E) :
    C.Ends s (as.forM f) (fun _ s' => ∀ a ∈ as, Q a s') E := by
  induction as generalizing s with
  | nil => exact .pure nofun
  | cons a as ih =>
      refine .bind (h a List.mem_cons_self s (C.refl s)) fun _ s₁ hl₁ ha => ?_
      have hrest := ih fun b hb s' hl => h b (List.mem_cons_of_mem a hb) s' (C.trans hl₁ hl)
      refine hrest.imp fun _ s₂ hl₂ hq b hb => ?_
      rcases List.mem_cons.mp hb with rfl | hb
      · exact stable b s₁ s₂ hl₂ ha
      · exact hq b hb

theorem foldlM {as : List α} {b : β} {f : β → α → ExceptT ε (StateM σ) β}
    (h : ∀ b, ∀ a ∈ as, ∀ s', C.leads s s' → C.Ends s' (f b a) (fun _ _ => True) E) :
    C.Ends s (as.foldlM f b) (fun _ _ => True) E := by
  induction as generalizing s b with
  | nil => exact .pure trivial
  | cons a as ih =>
      rw [List.foldlM_cons]
      refine .bind (h b a List.mem_cons_self s (C.refl s)) fun b' s₁ hl₁ _ => ih fun b'' a' ha' s' hl => ?_
      exact h b'' a' (List.mem_cons_of_mem a ha') s' (C.trans hl₁ hl)

theorem of_false (h : C.Ends s x Q fun _ => False) : ∃ a s', x.run s = (.ok a, s') ∧ C.leads s s' ∧ Q a s' := by
  rcases hrun : x.run s with ⟨r, s'⟩
  cases r with
  | error e => exact (h.of_error hrun).elim
  | ok a => exact ⟨a, s', rfl, h.of_ok hrun⟩

end Course.Ends

/-- A computation moves along the course from every state, whether it succeeds or fails. -/
def Course.Follows (C : Course σ) (x : ExceptT ε (StateM σ) α) : Prop := ∀ s, C.leads s (x.run s).2

namespace Course.Follows

variable {C : Course σ} {x : ExceptT ε (StateM σ) α} {f : α → ExceptT ε (StateM σ) β}

theorem pure (a : α) : C.Follows (Pure.pure a : ExceptT ε (StateM σ) α) := C.refl

theorem bind (hx : C.Follows x) (hf : ∀ a, C.Follows (f a)) : C.Follows (x >>= f) := by
  intro s
  have hl := hx s
  rw [run_bind]
  rcases hrun : x.run s with ⟨r, s₁⟩
  rw [hrun] at hl
  cases r with
  | error e => exact hl
  | ok a => exact C.trans hl (hf a s₁)

theorem get_bind {f : σ → ExceptT ε (StateM σ) β} (h : ∀ s, C.Follows (f s)) : C.Follows (get >>= f) :=
  fun s => h s s

theorem modify {f : σ → σ} (h : ∀ s, C.leads s (f s)) : C.Follows (modify f : ExceptT ε (StateM σ) PUnit) := h

theorem forM {as : List α} {f : α → ExceptT ε (StateM σ) PUnit} (h : ∀ a ∈ as, C.Follows (f a)) :
    C.Follows (as.forM f) := by
  induction as with
  | nil => exact .pure _
  | cons a as ih => exact .bind (h a List.mem_cons_self) fun _ => ih fun b hb => h b (List.mem_cons_of_mem a hb)

end Course.Follows

namespace Edit

variable {C : Course FlowGraph} {g : FlowGraph} {Q : α → FlowGraph → Prop} {E : AnalysisError → Prop}

theorem ends_change {f : FlowGraph → α × FlowGraph} (hl : C.leads g (f g).2) (hq : Q (f g).1 (f g).2) :
    C.Ends g (Edit.change f) Q E := ⟨hl, hq⟩

theorem ends_attempt {f : FlowGraph → Except AnalysisError (α × FlowGraph)} {a : α} {g' : FlowGraph}
    (hf : f g = .ok (a, g')) (hl : C.leads g g') (hq : Q a g') : C.Ends g (Edit.attempt f) Q E := by
  have hrun : (Edit.attempt f).run g = (.ok a, g') := by
    simp only [Edit.attempt, ExceptT.run, ExceptT.mk, hf]
  simp only [Course.Ends, hrun]
  exact ⟨hl, hq⟩

theorem ends_attemptUpdate {f : FlowGraph → Except AnalysisError FlowGraph} {g' : FlowGraph}
    {Q : Unit → FlowGraph → Prop} (hf : f g = .ok g') (hl : C.leads g g') (hq : Q () g') :
    C.Ends g (Edit.attemptUpdate f) Q E :=
  ends_attempt (by simp [hf, Except.map]) hl hq

end Edit

end SinkFlow
