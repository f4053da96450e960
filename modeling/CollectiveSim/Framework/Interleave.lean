import CollectiveSim.Framework.Run

/-!
# Workers that meet at barriers

Every move of the machine belongs to one worker or to none, and is then a barrier. The moves of
different workers commute, and a barrier waits until no worker can move. Any two runs from one
state can then be continued to a common state, and two runs that passed as many barriers and wait
for the next one are in the same state.
-/

namespace CollectiveSim.Framework

variable {σ α ι β : Type*}

structure Interleaved (step : σ → α → Option σ) (who : α → Option ι) : Prop where
  same : ∀ s a b t u, who a = who b → step s a = some t → step s b = some u → t = u
  apart : ∀ s a b t u, who a ≠ who b → step s a = some t → step s b = some u →
    ∃ v, step t b = some v ∧ step u a = some v
  wait : ∀ s a b t i, who a = none → step s a = some t → who b = some i → step s b = none

/-- No worker can move. -/
def Quiet (step : σ → α → Option σ) (who : α → Option ι) (s : σ) : Prop :=
  ∀ a i, who a = some i → step s a = none

def barriers (who : α → Option ι) (as : List α) : Nat := as.countP fun a => (who a).isNone

@[simp] theorem barriers_nil (who : α → Option ι) : barriers who [] = 0 := rfl

theorem barriers_cons_none {who : α → Option ι} {a : α} (as : List α) (h : who a = none) :
    barriers who (a :: as) = barriers who as + 1 := by
  simp [barriers, h]

theorem barriers_cons_some {who : α → Option ι} {a : α} {i : ι} (as : List α)
    (h : who a = some i) : barriers who (a :: as) = barriers who as := by
  simp [barriers, h]

namespace Interleaved

variable {step : σ → α → Option σ} {who : α → Option ι}

/-- Some move that `may` be taken leads from one state to the other. -/
def Moves (step : σ → α → Option σ) (may : α → Prop) (s t : σ) : Prop :=
  ∃ a, may a ∧ step s a = some t

theorem moves_of_run {may : α → Prop} {s t : σ} {as : List α}
    (h : Run step anyEvent s as t) (hmay : ∀ a ∈ as, may a) :
    Relation.ReflTransGen (Moves step may) s t := by
  induction h with
  | nil s => exact .refl
  | @cons s t u a as _ hstep _ ih =>
      have hfirst : Moves step may s t := ⟨a, hmay a List.mem_cons_self, hstep⟩
      exact .head hfirst (ih fun b hb => hmay b (List.mem_cons_of_mem a hb))

theorem run_of_moves {may : α → Prop} {s t : σ}
    (h : Relation.ReflTransGen (Moves step may) s t) : ∃ as, Run step anyEvent s as t := by
  induction h with
  | refl => exact ⟨[], .nil s⟩
  | tail _ hlast ih =>
      obtain ⟨as, hrun⟩ := ih
      obtain ⟨a, -, hstep⟩ := hlast
      exact ⟨as ++ [a], hrun.append (.cons trivial hstep (.nil _))⟩

/-- One move of either run is caught up by at most one move of the other. -/
theorem diamond (h : Interleaved step who) {may : α → Prop} {s t u : σ}
    (ht : Moves step may s t) (hu : Moves step may s u) :
    ∃ v, Relation.ReflGen (Moves step may) t v ∧ Relation.ReflTransGen (Moves step may) u v := by
  obtain ⟨a, hmaya, hstepa⟩ := ht
  obtain ⟨b, hmayb, hstepb⟩ := hu
  by_cases hwho : who a = who b
  · have heq : t = u := h.same s a b t u hwho hstepa hstepb
    subst heq
    exact ⟨t, .refl, .refl⟩
  · obtain ⟨v, htv, huv⟩ := h.apart s a b t u hwho hstepa hstepb
    exact ⟨v, .single ⟨b, hmayb, htv⟩, .single ⟨a, hmaya, huv⟩⟩

theorem join (h : Interleaved step who) {s t u : σ} {as bs : List α}
    (ht : Run step anyEvent s as t) (hu : Run step anyEvent s bs u) :
    ∃ v cs ds, Run step anyEvent t cs v ∧ Run step anyEvent u ds v := by
  have hleft : Relation.ReflTransGen (Moves step fun _ => True) s t :=
    moves_of_run ht fun _ _ => trivial
  have hright : Relation.ReflTransGen (Moves step fun _ => True) s u :=
    moves_of_run hu fun _ _ => trivial
  obtain ⟨v, htv, huv⟩ :=
    Relation.church_rosser (fun _ _ _ => h.diamond) hleft hright
  obtain ⟨cs, hcs⟩ := run_of_moves htv
  obtain ⟨ds, hds⟩ := run_of_moves huv
  exact ⟨v, cs, ds, hcs, hds⟩

/-- Runs that cannot go on have ended in one state. -/
theorem final_unique (h : Interleaved step who) {s t u : σ} {as bs : List α}
    (ht : Run step anyEvent s as t) (hu : Run step anyEvent s bs u)
    (htend : ∀ a, step t a = none) (huend : ∀ a, step u a = none) : t = u := by
  have hstay : ∀ {x y : σ} {cs : List α}, (∀ a, step x a = none) → Run step anyEvent x cs y →
      x = y := by
    intro x y cs hend hrun
    cases hrun with
    | nil => rfl
    | @cons _ _ _ a _ _ hstep _ =>
        rw [hend a] at hstep
        cases hstep
  obtain ⟨v, cs, ds, htv, huv⟩ := h.join ht hu
  exact (hstay htend htv).trans (hstay huend huv).symm

/-- What only grows along a run is, at the end of any two runs, one and the same list cut at two
places. -/
theorem prefix_or_prefix (h : Interleaved step who) (record : σ → List β)
    (hgrow : ∀ s a t, step s a = some t → record s <+: record t)
    {s t u : σ} {as bs : List α}
    (ht : Run step anyEvent s as t) (hu : Run step anyEvent s bs u) :
    record t <+: record u ∨ record u <+: record t := by
  have hkeep : ∀ {x y : σ} {cs : List α}, Run step anyEvent x cs y → record x <+: record y := by
    intro x y cs hrun
    induction hrun with
    | nil s => exact List.prefix_rfl
    | cons _ hstep _ ih => exact (hgrow _ _ _ hstep).trans ih
  obtain ⟨v, cs, ds, htv, huv⟩ := h.join ht hu
  exact List.prefix_or_prefix_of_prefix (hkeep htv) (hkeep huv)

theorem eq_of_quiet {may : α → Prop} {s t : σ} (hmay : ∀ a, may a → who a ≠ none)
    (hquiet : Quiet step who s) (h : Relation.ReflTransGen (Moves step may) s t) : t = s := by
  induction h with
  | refl => rfl
  | tail _ hlast ih =>
      subst ih
      obtain ⟨a, ha, hstep⟩ := hlast
      obtain ⟨i, hi⟩ := Option.ne_none_iff_exists'.mp (hmay a ha)
      rw [hquiet a i hi] at hstep
      cases hstep

/-- Between two barriers the order of the moves does not matter. -/
theorem quiet_unique (h : Interleaved step who) {s t u : σ} {as bs : List α}
    (ht : Run step anyEvent s as t) (hu : Run step anyEvent s bs u)
    (has : barriers who as = 0) (hbs : barriers who bs = 0)
    (htq : Quiet step who t) (huq : Quiet step who u) : t = u := by
  have hworker : ∀ {cs : List α}, barriers who cs = 0 → ∀ a ∈ cs, who a ≠ none := by
    intro cs hcs a ha hnone
    have hfree := List.countP_eq_zero.mp hcs a ha
    simp [hnone] at hfree
  have hleft : Relation.ReflTransGen (Moves step fun a => who a ≠ none) s t :=
    moves_of_run ht (hworker has)
  have hright : Relation.ReflTransGen (Moves step fun a => who a ≠ none) s u :=
    moves_of_run hu (hworker hbs)
  obtain ⟨v, htv, huv⟩ := Relation.church_rosser (fun _ _ _ => h.diamond) hleft hright
  rw [← eq_of_quiet (fun _ ha => ha) htq htv]
  exact eq_of_quiet (fun _ ha => ha) huq huv

/-- A run that passes a barrier waits for it, passes it and goes on. -/
theorem first_barrier (h : Interleaved step who) {s t : σ} {as : List α} {n : Nat}
    (hrun : Run step anyEvent s as t) (hn : barriers who as = n + 1) :
    ∃ front a back q r, barriers who front = 0 ∧ who a = none ∧ barriers who back = n ∧
      Run step anyEvent s front q ∧ Quiet step who q ∧ step q a = some r ∧
      Run step anyEvent r back t := by
  induction hrun with
  | nil s => simp at hn
  | @cons s q t a as _ hstep hrest ih =>
      cases hwho : who a with
      | none =>
          rw [barriers_cons_none as hwho, Nat.add_right_cancel_iff] at hn
          refine ⟨[], a, as, s, q, rfl, hwho, hn, .nil s, ?_, hstep, hrest⟩
          intro b i hb
          exact h.wait s a b q i hwho hstep hb
      | some i =>
          rw [barriers_cons_some as hwho] at hn
          obtain ⟨front, b, back, p, r, hfront, hb, hback, hrun, hquiet, hpass, htail⟩ := ih hn
          refine ⟨a :: front, b, back, p, r, ?_, hb, hback, .cons trivial hstep hrun, hquiet,
            hpass, htail⟩
          rw [barriers_cons_some front hwho, hfront]

theorem run_unique (h : Interleaved step who) {s t u : σ} {as bs : List α}
    (ht : Run step anyEvent s as t) (hu : Run step anyEvent s bs u)
    (hbar : barriers who as = barriers who bs)
    (htq : Quiet step who t) (huq : Quiet step who u) : t = u := by
  induction hn : barriers who as generalizing s as bs with
  | zero => exact h.quiet_unique ht hu hn (hbar.symm.trans hn) htq huq
  | succ n ih =>
      obtain ⟨f₁, a₁, b₁, q₁, r₁, hf₁, ha₁, hb₁, hrun₁, hq₁, hstep₁, hrest₁⟩ :=
        h.first_barrier ht hn
      obtain ⟨f₂, a₂, b₂, q₂, r₂, hf₂, ha₂, hb₂, hrun₂, hq₂, hstep₂, hrest₂⟩ :=
        h.first_barrier hu (hbar.symm.trans hn)
      -- both runs wait for the first barrier in one state
      have hq : q₁ = q₂ := h.quiet_unique hrun₁ hrun₂ hf₁ hf₂ hq₁ hq₂
      subst hq
      have hr : r₁ = r₂ := h.same q₁ a₁ a₂ r₁ r₂ (ha₁.trans ha₂.symm) hstep₁ hstep₂
      subst hr
      exact ih hrest₁ hrest₂ (hb₁.trans hb₂.symm) hb₁

end Interleaved

end CollectiveSim.Framework
