import Mathlib

/-!
# Labelled machines and their runs

A machine is a partial step function: a state and a label give the next state,
or nothing where the label is not enabled.  The labels carry everything a run
may choose, so a run is a list of labels, and a property of every run is a
property of every list.

`Machine.Leads C s t` says that some run takes `s` to `t` with every step
meeting the side condition `C` in the state it starts from.  Side conditions
say which steps a client may take (`Machine.Any` puts none).  The rule used
everywhere is `Leads.invariant`: a property that every allowed step preserves
holds along every run.
-/

namespace Ztk.Lib

/-- A partial step function on states `σ` with labels `ι`. -/
structure Machine (σ ι : Type) where
  /-- The state after a label, if the label is enabled. -/
  step : σ → ι → Option σ

namespace Machine

variable {σ ι : Type} {M : Machine σ ι} {C : σ → ι → Prop}

/-- The side condition that allows every step. -/
def Any : σ → ι → Prop := fun _ _ => True

/-- The state after a list of labels, if every one of them is enabled. -/
def run (M : Machine σ ι) : σ → List ι → Option σ
  | s, [] => some s
  | s, a :: as => (M.step s a).bind fun t => run M t as

theorem run_append (s : σ) (as bs : List ι) :
    M.run s (as ++ bs) = (M.run s as).bind fun t => M.run t bs := by
  induction as generalizing s with
  | nil => rfl
  | cons a as ih =>
      rw [List.cons_append, run, run]
      cases M.step s a with
      | none => rfl
      | some t => exact ih t

/-- The last label of a list that runs. -/
theorem run_concat {s u : σ} {as : List ι} {a : ι} :
    M.run s (as ++ [a]) = some u ↔ ∃ t, M.run s as = some t ∧ M.step t a = some u := by
  rw [run_append, Option.bind_eq_some_iff]
  refine exists_congr fun t => and_congr_right fun _ => ?_
  rw [run]
  cases M.step t a with
  | none => exact Iff.rfl
  | some v => exact Iff.rfl

/-- `t` is reached from `s` by steps that all meet `C`. -/
inductive Leads (M : Machine σ ι) (C : σ → ι → Prop) : σ → σ → Prop where
  | refl : Leads M C s s
  | tail : Leads M C s t → C t a → M.step t a = some u → Leads M C s u

theorem Leads.trans {s t u : σ} (h₁ : M.Leads C s t) (h₂ : M.Leads C t u) :
    M.Leads C s u := by
  induction h₂ with
  | refl => exact h₁
  | tail _ hc hs ih => exact .tail ih hc hs

theorem Leads.single {s t : σ} {a : ι} (hc : C s a) (hs : M.step s a = some t) :
    M.Leads C s t :=
  .tail .refl hc hs

/-- A property that every allowed step preserves holds along every run. -/
theorem Leads.invariant {I : σ → Prop} {s t : σ}
    (hstep : ∀ s a t, I s → C s a → M.step s a = some t → I t)
    (h : M.Leads C s t) (hs : I s) : I t := by
  induction h with
  | refl => exact hs
  | tail _ hc hst ih => exact hstep _ _ _ ih hc hst

/-- Every step of a list of labels meets `C`. -/
def RunMeets (M : Machine σ ι) (C : σ → ι → Prop) : σ → List ι → Prop
  | _, [] => True
  | s, a :: as => C s a ∧ ∀ t, M.step s a = some t → RunMeets M C t as

/-- Where side conditions can be tested, so can those of a run. -/
instance decidableRunMeets [∀ s a, Decidable (C s a)] :
    ∀ (as : List ι) (s : σ), Decidable (M.RunMeets C s as)
  | [], _ => isTrue trivial
  | a :: as, s =>
      match hs : M.step s a with
      | none => decidable_of_iff (C s a)
          ⟨fun h => ⟨h, fun t ht => by rw [hs] at ht; cases ht⟩, fun h => h.1⟩
      | some t =>
          have := decidableRunMeets as t
          decidable_of_iff (C s a ∧ M.RunMeets C t as)
            ⟨fun h => ⟨h.1, fun u hu => by rw [hs] at hu; cases hu; exact h.2⟩,
              fun h => ⟨h.1, h.2 t hs⟩⟩

/-- A list of labels that runs is a run. -/
theorem leads_of_run : ∀ (as : List ι) (s t : σ), M.run s as = some t →
    M.RunMeets C s as → M.Leads C s t
  | [], s, t, h, _ => by
      rw [run, Option.some.injEq] at h
      subst h
      exact .refl
  | a :: as, s, t, h, hm => by
      rw [run] at h
      cases hs : M.step s a with
      | none => rw [hs] at h; cases h
      | some u =>
          rw [hs, Option.bind_some] at h
          exact (Leads.single hm.1 hs).trans (leads_of_run as u t h (hm.2 u hs))

/-- A test on the last state of a list of labels, evaluated: the list runs, and the state
it ends in has the property. -/
theorem exists_run {P : σ → Prop} [DecidablePred P] {s : σ} {l : List ι}
    (h : (M.run s l).map (fun t => decide (P t)) = some true) :
    ∃ t, M.run s l = some t ∧ P t := by
  obtain ⟨t, ht, hp⟩ := Option.map_eq_some_iff.mp h
  exact ⟨t, ht, of_decide_eq_true hp⟩

theorem runMeets_any : ∀ (as : List ι) (s : σ), M.RunMeets Any s as
  | [], _ => trivial
  | _ :: as, _ => ⟨trivial, fun t _ => runMeets_any as t⟩

/-- A fault that no step undoes and that a step brings about exactly when it does
not meet `C`: a run is free of it exactly when all its steps meet `C`. -/
theorem run_faultless_iff {F : σ → Prop}
    (hkeep : ∀ s a t, F s → M.step s a = some t → F t)
    (hstep : ∀ s a t, ¬ F s → M.step s a = some t → (¬ F t ↔ C s a)) :
    ∀ (as : List ι) (s t : σ), ¬ F s → M.run s as = some t → (¬ F t ↔ M.RunMeets C s as)
  | [], s, t, hs, h => by
      rw [run, Option.some.injEq] at h
      subst h
      exact iff_of_true hs trivial
  | a :: as, s, t, hs, h => by
      rw [run] at h
      cases hu : M.step s a with
      | none => rw [hu] at h; cases h
      | some u =>
          rw [hu, Option.bind_some] at h
          by_cases hf : F u
          · have ht : F t := (leads_of_run as u t h (runMeets_any as u)).invariant
              (fun s a t hi _ hst => hkeep s a t hi hst) hf
            exact iff_of_false (fun hn => hn ht) fun hm => (hstep s a u hs hu).mpr hm.1 hf
          · rw [run_faultless_iff hkeep hstep as u t hf h]
            refine ⟨fun hm => ⟨(hstep s a u hs hu).mp hf, fun v hv => ?_⟩, fun hm => hm.2 u hu⟩
            rw [hu, Option.some.injEq] at hv
            exact hv ▸ hm

/-- A side condition on the labels alone. -/
theorem runMeets_of_forall {P : ι → Prop} :
    ∀ {as : List ι} (s : σ), (∀ a ∈ as, P a) → M.RunMeets (fun _ a => P a) s as
  | [], _, _ => trivial
  | _ :: _, _, h => ⟨h _ List.mem_cons_self, fun t _ =>
      runMeets_of_forall t fun b hb => h b (List.mem_cons_of_mem _ hb)⟩

theorem runMeets_and {D E : σ → ι → Prop} :
    ∀ (as : List ι) (s : σ), M.RunMeets D s as → M.RunMeets E s as →
      M.RunMeets (fun s a => D s a ∧ E s a) s as
  | [], _, _, _ => trivial
  | _ :: as, _, hd, he => ⟨⟨hd.1, he.1⟩, fun t ht => runMeets_and as t (hd.2 t ht) (he.2 t ht)⟩

/-- Where `J` holds at the start and steps that meet `D` keep it, a side condition that
`D` and `J` imply is met by every run that meets `D`. -/
theorem runMeets_imp {D : σ → ι → Prop} {J : σ → Prop}
    (hkeep : ∀ s a t, J s → D s a → M.step s a = some t → J t)
    (hstep : ∀ s a, J s → D s a → C s a) :
    ∀ (as : List ι) (s : σ), J s → M.RunMeets D s as → M.RunMeets C s as
  | [], _, _, _ => trivial
  | a :: as, s, hs, h => ⟨hstep s a hs h.1, fun t ht =>
      runMeets_imp hkeep hstep as t (hkeep s a t hs h.1 ht) (h.2 t ht)⟩

/-- Two side conditions that agree wherever `J` holds allow the same runs, when
`J` holds at the start and steps that meet one of them keep it. -/
theorem runMeets_iff {D : σ → ι → Prop} {J : σ → Prop}
    (hkeep : ∀ s a t, J s → C s a → M.step s a = some t → J t)
    (hstep : ∀ s a, J s → (D s a ↔ C s a)) (as : List ι) (s : σ) (hs : J s) :
    M.RunMeets D s as ↔ M.RunMeets C s as := by
  constructor
  · exact runMeets_imp (fun s a t hj hd => hkeep s a t hj ((hstep s a hj).mp hd))
      (fun s a hj => (hstep s a hj).mp) as s hs
  · exact runMeets_imp hkeep (fun s a hj => (hstep s a hj).mpr) as s hs

/-- `P` holds in every state of the run of a list of labels. -/
def Throughout (M : Machine σ ι) (P : σ → Prop) (s : σ) (as : List ι) : Prop :=
  ∀ bs t, bs <+: as → M.run s bs = some t → P t

theorem throughout_nil {P : σ → Prop} {s : σ} : M.Throughout P s [] ↔ P s := by
  constructor
  · intro h
    exact h [] s List.prefix_rfl rfl
  · intro h bs t hbs ht
    rw [List.prefix_nil.mp hbs] at ht
    cases ht
    exact h

theorem throughout_cons {P : σ → Prop} {s : σ} {a : ι} {as : List ι} :
    M.Throughout P s (a :: as) ↔ P s ∧ ∀ t, M.step s a = some t → M.Throughout P t as := by
  constructor
  · intro h
    refine ⟨h [] s (List.nil_prefix) rfl, fun t ht bs u hbs hu => ?_⟩
    refine h (a :: bs) u (List.prefix_cons_inj a |>.mpr hbs) ?_
    rw [run, ht]
    exact hu
  · rintro ⟨hs, h⟩ bs t hbs ht
    cases bs with
    | nil =>
        cases ht
        exact hs
    | cons b bs =>
        obtain ⟨rfl, htl⟩ := List.cons_prefix_cons.mp hbs
        rw [run, Option.bind_eq_some_iff] at ht
        obtain ⟨u, hu, ht⟩ := ht
        exact h u hu bs t htl ht

/-- Where a step keeps `P` exactly when it meets `C`, `P` holds throughout a run exactly
when all steps of the run meet `C`.  The argument may use that the steps meet `D`, and an
invariant `I` of such steps. -/
theorem throughout_iff {D : σ → ι → Prop} {I P : σ → Prop}
    (hkeep : ∀ s a t, I s → D s a → M.step s a = some t → I t)
    (hstep : ∀ s a t, I s → D s a → P s → M.step s a = some t → (P t ↔ C s a)) :
    ∀ (as : List ι) (s t : σ), I s → P s → M.RunMeets D s as → M.run s as = some t →
      (M.Throughout P s as ↔ M.RunMeets C s as)
  | [], s, t, _, hs, _, _ => iff_of_true (throughout_nil.mpr hs) trivial
  | a :: as, s, t, hi, hs, hd, h => by
      rw [run, Option.bind_eq_some_iff] at h
      obtain ⟨u, hu, h⟩ := h
      have hiu := hkeep s a u hi hd.1 hu
      have hiff := hstep s a u hi hd.1 hs hu
      have hdu := hd.2 u hu
      rw [throughout_cons, RunMeets]
      constructor
      · rintro ⟨-, hall⟩
        have hpu : P u := hall u hu [] u List.nil_prefix rfl
        refine ⟨hiff.mp hpu, fun v hv => ?_⟩
        rw [hu, Option.some.injEq] at hv
        subst hv
        exact (throughout_iff hkeep hstep as u t hiu hpu hdu h).mp (hall u hu)
      · rintro ⟨hc, hall⟩
        refine ⟨hs, fun v hv => ?_⟩
        rw [hu, Option.some.injEq] at hv
        subst hv
        exact (throughout_iff hkeep hstep as u t hiu (hiff.mpr hc) hdu h).mpr (hall u hu)

/-- Where steps of a kind lower a rank, no more of them follow one another than the
rank allows. -/
theorem length_le_of_rank {P : ι → Prop} {r : σ → Nat}
    (hdec : ∀ s a t, P a → M.step s a = some t → r t < r s) :
    ∀ (as : List ι) (s t : σ), (∀ a ∈ as, P a) → M.run s as = some t → as.length + r t ≤ r s
  | [], s, t, _, h => by
      rw [run, Option.some.injEq] at h
      rw [h, List.length_nil, Nat.zero_add]
  | a :: as, s, t, hP, h => by
      rw [run] at h
      cases hu : M.step s a with
      | none => rw [hu] at h; cases h
      | some u =>
          rw [hu, Option.bind_some] at h
          have hlt := hdec s a u (hP a List.mem_cons_self) hu
          have hle := length_le_of_rank hdec as u t (fun b hb => hP b (List.mem_cons_of_mem _ hb)) h
          rw [List.length_cons]
          omega

/-- The same where only the states of an invariant lower the rank. -/
theorem length_le_of_rank_of {I : σ → Prop} {P : ι → Prop} {r : σ → Nat}
    (hstep : ∀ s a t, I s → P a → M.step s a = some t → I t ∧ r t < r s) {as : List ι} :
    ∀ {s t : σ}, I s → (∀ a ∈ as, P a) → M.run s as = some t → I t ∧ as.length + r t ≤ r s := by
  induction as with
  | nil =>
      intro s t hi _ h
      cases h
      exact ⟨hi, (Nat.zero_add _).le⟩
  | cons a as ih =>
      intro s t hi hP h
      rw [run, Option.bind_eq_some_iff] at h
      obtain ⟨u, hu, h⟩ := h
      obtain ⟨hiu, hlt⟩ := hstep s a u hi (hP a List.mem_cons_self) hu
      obtain ⟨hit, hle⟩ := ih hiu (fun b hb => hP b (List.mem_cons_of_mem _ hb)) h
      refine ⟨hit, ?_⟩
      rw [List.length_cons]
      omega

end Machine

end Ztk.Lib
