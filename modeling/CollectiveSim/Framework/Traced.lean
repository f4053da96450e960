import Mathlib

/-!
# Computations that leave a trace

A computation that may stop with an error and notes what it does on its way. A property of all notes
is checked part by part: what stands behind a part that stopped is never noted.
-/

namespace CollectiveSim.Framework

/-- The notes of a computation, and its value or the error that stopped it. -/
structure Traced (ε ω α : Type) where
  trace : List ω
  result : Except ε α

theorem except_bind_ok {ε α β : Type} {x : Except ε α} {f : α → Except ε β} {b : β} :
    (x >>= f) = .ok b ↔ ∃ a, x = .ok a ∧ f a = .ok b := by
  cases x with
  | error e =>
      constructor
      · intro h
        cases h
      · rintro ⟨a, ha, -⟩
        cases ha
  | ok a =>
      constructor
      · intro h
        exact ⟨a, rfl, h⟩
      · rintro ⟨a', ha', hf⟩
        cases ha'
        exact hf

theorem except_map_ok {ε α β : Type} {x : Except ε α} {f : α → β} {b : β} :
    f <$> x = .ok b ↔ ∃ a, x = .ok a ∧ f a = b := by
  cases x with
  | error e =>
      constructor
      · intro h
        cases h
      · rintro ⟨a, ha, -⟩
        cases ha
  | ok a =>
      constructor
      · intro h
        cases h
        exact ⟨a, rfl, rfl⟩
      · rintro ⟨a', ha, h⟩
        cases ha
        rw [← h]
        rfl

namespace Traced

variable {ε ω α β σ : Type}

instance : Monad (Traced ε ω) where
  pure a := ⟨[], .ok a⟩
  bind t f :=
    match t.result with
    | .ok a => ⟨t.trace ++ (f a).trace, (f a).result⟩
    | .error e => ⟨t.trace, .error e⟩

instance : LawfulMonad (Traced ε ω) :=
  LawfulMonad.mk' _
    (by rintro α ⟨trace, _ | a⟩ <;> simp [Functor.map])
    (by intros; simp [bind, pure])
    (by
      rintro α β γ ⟨trace, _ | a⟩ f g
      · rfl
      · simp only [bind]
        cases (f a).result <;> simp)

def note (w : ω) : Traced ε ω Unit := ⟨[w], .ok ()⟩

def notes (ws : List ω) : Traced ε ω Unit := ⟨ws, .ok ()⟩

/-- A computation that notes nothing. -/
def check (r : Except ε α) : Traced ε ω α := ⟨[], r⟩

/-- A part that is run in one case only. -/
def when (c : Bool) (t : Traced ε ω Unit) : Traced ε ω Unit := if c then t else pure ()

/-- Every note has the property. -/
def All (p : ω → Prop) (t : Traced ε ω α) : Prop := ∀ w ∈ t.trace, p w

@[simp] theorem result_pure (a : α) : (pure a : Traced ε ω α).result = .ok a := rfl

@[simp] theorem result_note (w : ω) : (note w : Traced ε ω Unit).result = .ok () := rfl

@[simp] theorem result_notes (ws : List ω) : (notes ws : Traced ε ω Unit).result = .ok () := rfl

@[simp] theorem result_check (r : Except ε α) : (check r : Traced ε ω α).result = r := rfl

@[simp] theorem result_bind (t : Traced ε ω α) (f : α → Traced ε ω β) :
    (t >>= f).result = t.result >>= fun a => (f a).result := by
  obtain ⟨trace, result⟩ := t
  cases result <;> rfl

@[simp] theorem result_when (c : Bool) (t : Traced ε ω Unit) :
    (when c t).result = if c then t.result else .ok () := by
  cases c <;> rfl

@[simp] theorem trace_pure (a : α) : (pure a : Traced ε ω α).trace = [] := rfl

@[simp] theorem trace_note_bind (w : ω) (f : Unit → Traced ε ω β) :
    (note w >>= f).trace = w :: (f ()).trace := rfl

theorem trace_bind {t : Traced ε ω α} {a : α} (h : t.result = .ok a) (f : α → Traced ε ω β) :
    (t >>= f).trace = t.trace ++ (f a).trace := by
  obtain ⟨trace, result⟩ := t
  cases h
  rfl

theorem result_foldlM (f : σ → α → Traced ε ω σ) (s : σ) (xs : List α) :
    (xs.foldlM f s).result = xs.foldlM (fun s x => (f s x).result) s := by
  induction xs generalizing s with
  | nil => rfl
  | cons x xs ih =>
      rw [List.foldlM_cons, List.foldlM_cons, result_bind]
      congr 1
      funext s'
      exact ih s'

section

variable {p : ω → Prop}

@[simp] theorem all_pure (a : α) : (pure a : Traced ε ω α).All p ↔ True := by
  simp [All, pure]

@[simp] theorem all_note (w : ω) : (note w : Traced ε ω Unit).All p ↔ p w := by
  simp [All, note]

@[simp] theorem all_notes (ws : List ω) : (notes ws : Traced ε ω Unit).All p ↔ ∀ w ∈ ws, p w :=
  Iff.rfl

@[simp] theorem all_check (r : Except ε α) : (check r : Traced ε ω α).All p ↔ True := by
  simp [All, check]

@[simp] theorem all_bind (t : Traced ε ω α) (f : α → Traced ε ω β) :
    (t >>= f).All p ↔ t.All p ∧ ∀ a, t.result = .ok a → (f a).All p := by
  obtain ⟨trace, result⟩ := t
  cases result with
  | error e => simp [All, bind]
  | ok a =>
      simp only [All, bind, List.mem_append]
      constructor
      · intro h
        refine ⟨fun w hw => h w (.inl hw), ?_⟩
        intro a' ha' w hw
        cases ha'
        exact h w (.inr hw)
      · rintro ⟨hfirst, hrest⟩ w (hw | hw)
        · exact hfirst w hw
        · exact hrest a rfl w hw

@[simp] theorem all_when (c : Bool) (t : Traced ε ω Unit) :
    (when c t).All p ↔ (c = true → t.All p) := by
  cases c <;> simp [when]

theorem all_unit_bind (t : Traced ε ω Unit) (f : Unit → Traced ε ω β) :
    (t >>= f).All p ↔ t.All p ∧ (t.result = .ok () → (f ()).All p) := by
  rw [all_bind]
  exact and_congr_right fun _ => ⟨fun h => h (), fun h _ => h⟩

theorem all_note_bind (w : ω) (f : Unit → Traced ε ω β) :
    (note w >>= f).All p ↔ p w ∧ (f ()).All p := by
  rw [all_unit_bind]
  simp

theorem all_check_bind (r : Except ε α) (f : α → Traced ε ω β) :
    (check r >>= f).All p ↔ ∀ a, r = .ok a → (f a).All p := by
  simp

theorem all_guard_bind (r : Except ε Unit) (f : Unit → Traced ε ω β) :
    (check r >>= f).All p ↔ (r = .ok () → (f ()).All p) := by
  rw [all_unit_bind]
  simp

theorem all_when_bind (c : Bool) (t : Traced ε ω Unit) (f : Unit → Traced ε ω β) :
    (when c t >>= f).All p ↔
      (c = true → t.All p) ∧ ((c = true → t.result = .ok ()) → (f ()).All p) := by
  rw [all_unit_bind]
  cases c <;> simp

/-- Every round of a loop that is reached fits the rounds before it. -/
def RoundsFit (f : σ → α → Except ε σ) (s : σ) (fits : List α → α → Prop) (xs : List α) : Prop :=
  ∀ before x after, xs = before ++ x :: after → (∃ s', before.foldlM f s = .ok s') → fits before x

theorem roundsFit_snoc {f : σ → α → Except ε σ} {s : σ} {fits : List α → α → Prop} {xs : List α}
    {x : α} : RoundsFit f s fits (xs ++ [x]) ↔
      RoundsFit f s fits xs ∧ ((∃ s', xs.foldlM f s = .ok s') → fits xs x) := by
  constructor
  · intro h
    refine ⟨fun before y after heq hreach => ?_, h xs x [] rfl⟩
    exact h before y (after ++ [x]) (by rw [heq, List.append_assoc, List.cons_append]) hreach
  · rintro ⟨hearlier, hlast⟩ before y after heq hreach
    rcases List.eq_nil_or_concat' after with rfl | ⟨after, z, rfl⟩
    · obtain ⟨rfl, hsingle⟩ := List.append_inj' heq rfl
      cases hsingle
      exact hlast hreach
    · rw [← List.cons_append, ← List.append_assoc] at heq
      exact hearlier before y after (List.append_inj' heq rfl).1 hreach

/-- The rule for loops: where a round that fits keeps the invariant, and under the invariant has the
property if and only if it fits, the loop has the property if and only if its rounds fit. -/
theorem all_foldlM_iff (f : σ → α → Traced ε ω σ) (s : σ) (inv : List α → σ → Prop)
    (fits : List α → α → Prop) (hstart : inv [] s)
    (hstep : ∀ before x s₁ s₂, inv before s₁ → fits before x → (f s₁ x).result = .ok s₂ →
      inv (before ++ [x]) s₂)
    (hiff : ∀ before x s₁, inv before s₁ → ((f s₁ x).All p ↔ fits before x)) (xs : List α) :
    (xs.foldlM f s).All p ↔ RoundsFit (fun s x => (f s x).result) s fits xs := by
  have hboth : ((xs.foldlM f s).All p ↔ RoundsFit (fun s x => (f s x).result) s fits xs) ∧
      (RoundsFit (fun s x => (f s x).result) s fits xs →
        ∀ s', xs.foldlM (fun s x => (f s x).result) s = .ok s' → inv xs s') := by
    induction xs using List.reverseRecOn with
    | nil =>
        constructor
        · simp [RoundsFit]
        · intro _ s' hs'
          cases hs'
          exact hstart
    | append_singleton xs x ih =>
        obtain ⟨hall, hinv⟩ := ih
        rw [roundsFit_snoc, List.foldlM_append, all_bind, hall, result_foldlM]
        constructor
        · refine and_congr_right fun hearlier => ?_
          simp only [List.foldlM_cons, List.foldlM_nil, bind_pure]
          constructor
          · rintro h ⟨s', hs'⟩
            exact (hiff xs x s' (hinv hearlier s' hs')).mp (h s' hs')
          · intro h s' hs'
            exact (hiff xs x s' (hinv hearlier s' hs')).mpr (h ⟨s', hs'⟩)
        · rintro ⟨hearlier, hlast⟩ s₂ hs₂
          rw [List.foldlM_append] at hs₂
          cases hfold : xs.foldlM (fun s x => (f s x).result) s with
          | error e =>
              rw [hfold] at hs₂
              cases hs₂
          | ok s₁ =>
              rw [hfold] at hs₂
              have hround : (f s₁ x).result = .ok s₂ := by
                rwa [← bind_pure (f s₁ x).result]
              exact hstep xs x s₁ s₂ (hinv hearlier s₁ hfold) (hlast ⟨s₁, hfold⟩) hround
  exact hboth.1

end

end Traced

end CollectiveSim.Framework
