import Mathlib

/-!
# Traces

A trace lists what a run has done, the oldest event first; a step appends to it.  Events
are about objects, named by `κ`: one event ends the life of an object, and others use it.
`Trace.Closed` says that no object is used after its end.  It is decided event by event
(`Trace.closed_concat`), so a step lemma about the events it appends carries it along
every run.
-/

namespace Ztk.Lib.Trace

variable {ε κ : Type} {tr : List ε} {e : ε}

theorem pairwise_concat {R : ε → ε → Prop} :
    (tr ++ [e]).Pairwise R ↔ tr.Pairwise R ∧ ∀ f ∈ tr, R f e := by
  rw [List.pairwise_append]
  refine and_congr_right fun _ => ⟨fun h f hf => h.2 f hf e List.mem_cons_self, fun h => ?_⟩
  refine ⟨List.pairwise_singleton R e, fun f hf g hg => ?_⟩
  rw [List.mem_singleton.mp hg]
  exact h f hf

/-- The events of a kind, when one more is recorded. -/
theorem filter_concat (P : ε → Prop) [DecidablePred P] :
    (tr ++ [e]).filter P = tr.filter P ++ if P e then [e] else [] := by
  rw [List.filter_append, List.filter_singleton]
  by_cases he : P e <;> simp [he]

variable {ends : κ → ε} {uses : κ → ε → Prop}

/-- No object is used after the event that ends it. -/
def Closed (ends : κ → ε) (uses : κ → ε → Prop) (tr : List ε) : Prop :=
  tr.Pairwise fun e f => ∀ x, e = ends x → ¬ uses x f

theorem closed_nil : Closed ends uses [] := List.Pairwise.nil

theorem closed_concat :
    Closed ends uses (tr ++ [e]) ↔ Closed ends uses tr ∧ ∀ x, ends x ∈ tr → ¬ uses x e := by
  rw [Closed, pairwise_concat, Closed]
  refine and_congr_right fun _ => ⟨fun h x hx => h _ hx x rfl, fun h f hf x hx => ?_⟩
  exact h x (hx ▸ hf)

/-- As long as nothing has ended, anything may be used. -/
theorem closed_of_not_mem (h : ∀ x, ends x ∉ tr) : Closed ends uses tr := by
  refine List.Pairwise.imp_of_mem (R := fun _ _ => True) ?_ (List.pairwise_of_forall fun _ _ => trivial)
  intro e _ he _ _ x hx
  exact absurd (hx ▸ he) (h x)

/-- Events that use nothing may be recorded at any time. -/
theorem Closed.append_unused (h : Closed ends uses tr) {es : List ε}
    (hes : ∀ f ∈ es, ∀ x, ¬ uses x f) : Closed ends uses (tr ++ es) := by
  refine List.pairwise_append.mpr ⟨h, ?_, fun e _ f hf x _ => hes f hf x⟩
  refine List.Pairwise.imp_of_mem (R := fun _ _ => True) ?_ (List.pairwise_of_forall fun _ _ => trivial)
  intro _ f _ hf _ x _
  exact hes f hf x

/-- An object that is used last has not ended before. -/
theorem Closed.not_ended (h : Closed ends uses (tr ++ [e])) {x : κ} (hu : uses x e) :
    ends x ∉ tr := fun hx => (closed_concat.mp h).2 x hx hu

end Ztk.Lib.Trace
