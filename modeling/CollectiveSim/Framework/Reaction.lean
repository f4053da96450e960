import Mathlib

/-!
# Processes that react to events

A process reacts to an event with a new state and with further events, for itself and for others, at
the time of the event or later. An execution lists the events as they are begun, each of them due by
then. What two executions do may differ, but not below a time below which both have done all that was
due, where in one of them no process has two events of one time.
-/

namespace CollectiveSim.Framework

theorem sum_exchange {ι M : Type*} [DecidableEq ι] [AddCommMonoid M] {s : Finset ι} {f g : ι → M}
    {i : ι} (hi : i ∈ s) (hne : ∀ j, j ≠ i → g j = f j) {a b : M} (h : g i + a = f i + b) :
    ∑ j ∈ s, g j + a = ∑ j ∈ s, f j + b := by
  have hrest : ∑ j ∈ s.erase i, g j = ∑ j ∈ s.erase i, f j :=
    Finset.sum_congr rfl fun j hj => hne j (Finset.ne_of_mem_erase hj)
  rw [← Finset.sum_erase_add s g hi, ← Finset.sum_erase_add s f hi, hrest, add_assoc, add_assoc, h]

/-- An event of a process at a time. -/
structure Occurrence (π ε : Type*) where
  proc : π
  time : Nat
  event : ε
deriving DecidableEq

/-- Processes with the states they start from, what each of them does at an event, and the events
that are due at the outset. -/
structure Reactive (π ε σ : Type*) where
  procs : Finset π
  start : π → σ
  initial : Multiset (Occurrence π ε)
  react : Occurrence π ε → σ → σ × List (Occurrence π ε)
  delayed : ∀ o s, ∀ c ∈ (react o s).2, o.time ≤ c.time

namespace Reactive

variable {π ε σ : Type*} (R : Reactive π ε σ)

/-- The state behind a list of events of one process. -/
def after (s : σ) (l : List (Occurrence π ε)) : σ := l.foldl (fun s o => (R.react o s).1) s

/-- The events that the process leaves behind on its way through the list. -/
def spawned (s : σ) : List (Occurrence π ε) → List (Occurrence π ε)
  | [] => []
  | o :: os => (R.react o s).2 ++ spawned (R.react o s).1 os

@[simp] theorem after_append_singleton (s : σ) (l : List (Occurrence π ε)) (o : Occurrence π ε) :
    R.after s (l ++ [o]) = (R.react o (R.after s l)).1 := List.foldl_concat ..

theorem spawned_append (s : σ) (l m : List (Occurrence π ε)) :
    R.spawned s (l ++ m) = R.spawned s l ++ R.spawned (R.after s l) m := by
  induction l generalizing s with
  | nil => rfl
  | cons o os ih => simp [spawned, ih, after]

theorem spawned_append_singleton (s : σ) (l : List (Occurrence π ε)) (o : Occurrence π ε) :
    R.spawned s (l ++ [o]) = R.spawned s l ++ (R.react o (R.after s l)).2 := by
  rw [spawned_append]
  simp [spawned]

theorem spawned_time {s : σ} {l : List (Occurrence π ε)} {t : Nat} (h : ∀ o ∈ l, t < o.time) :
    ∀ c ∈ R.spawned s l, t < c.time := by
  induction l generalizing s with
  | nil => simp [spawned]
  | cons o os ih =>
      obtain ⟨ho, hos⟩ := List.forall_mem_cons.mp h
      intro c hc
      cases List.mem_append.mp hc with
      | inl hfirst => exact ho.trans_le (R.delayed o s c hfirst)
      | inr hrest => exact ih hos c hrest

end Reactive

/-- The events stand in the order of their times. -/
def Chronological {π ε : Type*} (l : List (Occurrence π ε)) : Prop :=
  l.Pairwise fun a b => a.time ≤ b.time

namespace Chronological

variable {π ε : Type*} {l : List (Occurrence π ε)}

theorem filter_le (h : Chronological l) (t : Nat) :
    l.filter (fun o => o.time ≤ t) =
      l.filter (fun o => o.time < t) ++ l.filter (fun o => o.time = t) := by
  induction l with
  | nil => rfl
  | cons o os ih =>
      obtain ⟨ho, hos⟩ := List.pairwise_cons.mp h
      rcases Nat.lt_trichotomy o.time t with hlt | heq | hgt
      · simp [hlt, hlt.le, hlt.ne, ih hos]
      · have hnone : os.filter (fun o => o.time < t) = [] := by
          rw [List.filter_eq_nil_iff]
          intro a ha
          have := ho a ha
          simp only [decide_eq_true_eq]
          omega
        simp [heq, ih hos, hnone]
      · simp [hgt.not_gt, hgt.not_ge, hgt.ne', ih hos]

theorem le_last {o : Occurrence π ε} (h : Chronological (l ++ [o])) : ∀ a ∈ l, a.time ≤ o.time := by
  obtain ⟨-, -, hcross⟩ := List.pairwise_append.mp h
  exact fun a ha => hcross a ha o (List.mem_singleton_self o)

theorem init {o : Occurrence π ε} (h : Chronological (l ++ [o])) : Chronological l :=
  (List.pairwise_append.mp h).1

end Chronological

namespace Reactive

variable {π ε σ : Type*} (R : Reactive π ε σ)

theorem count_spawned [DecidableEq (Occurrence π ε)] {l : List (Occurrence π ε)}
    (h : Chronological l) (s : σ) (a : Occurrence π ε) :
    (R.spawned s l).count a = (R.spawned s (l.filter fun o => o.time ≤ a.time)).count a := by
  induction l generalizing s with
  | nil => rfl
  | cons o os ih =>
      obtain ⟨ho, hos⟩ := List.pairwise_cons.mp h
      by_cases hle : o.time ≤ a.time
      · simp [hle, spawned, ih hos]
      · have hlater : ∀ b ∈ o :: os, a.time < b.time := by
          intro b hb
          cases List.mem_cons.mp hb with
          | inl heq => exact heq ▸ Nat.lt_of_not_le hle
          | inr hmem => exact (Nat.lt_of_not_le hle).trans_le (ho b hmem)
        have hnone : (o :: os).filter (fun o => o.time ≤ a.time) = [] := by
          rw [List.filter_eq_nil_iff]
          intro b hb
          simpa using hlater b hb
        rw [hnone]
        exact List.count_eq_zero.mpr fun hmem => (R.spawned_time hlater a hmem).false

theorem count_spawned_le [DecidableEq (Occurrence π ε)] {l m : List (Occurrence π ε)}
    (hl : Chronological l) (hm : Chronological m) (s : σ) (a : Occurrence π ε)
    (h : l.filter (fun o => o.time ≤ a.time) <+: m.filter (fun o => o.time ≤ a.time)) :
    (R.spawned s l).count a ≤ (R.spawned s m).count a := by
  rw [R.count_spawned hl, R.count_spawned hm]
  obtain ⟨rest, hrest⟩ := h
  rw [← hrest, spawned_append, List.count_append]
  exact Nat.le_add_right _ _

theorem eq_singleton_of_mem {α : Type*} {l : List α} {a : α} (h : a ∈ l) (hone : l.length ≤ 1) :
    l = [a] := by
  have hlen : l.length = 1 := Nat.le_antisymm hone (List.length_pos_of_mem h)
  obtain ⟨b, rfl⟩ := List.length_eq_one_iff.mp hlen
  rw [List.mem_singleton.mp h]

/-- The events of one process. -/
def own [DecidableEq π] (p : π) (L : List (Occurrence π ε)) : List (Occurrence π ε) :=
  L.filter fun o => o.proc = p

@[simp] theorem own_append [DecidableEq π] (p : π) (L M : List (Occurrence π ε)) :
    own p (L ++ M) = own p L ++ own p M := List.filter_append ..

theorem own_singleton_self [DecidableEq π] (o : Occurrence π ε) : own o.proc [o] = [o] := by
  simp [own]

theorem own_singleton_of_ne [DecidableEq π] {o : Occurrence π ε} {p : π} (h : o.proc ≠ p) :
    own p [o] = [] := by simp [own, h]

theorem mem_own [DecidableEq π] {p : π} {L : List (Occurrence π ε)} {o : Occurrence π ε} :
    o ∈ own p L ↔ o ∈ L ∧ o.proc = p := by simp [own]

section

variable [DecidableEq π]

/-- What is due by the time the events of the list have been begun, and they themselves. -/
def due (L : List (Occurrence π ε)) : Multiset (Occurrence π ε) :=
  R.initial + ∑ p ∈ R.procs, (R.spawned (R.start p) (own p L) : Multiset (Occurrence π ε))

theorem due_append_singleton {L : List (Occurrence π ε)} {o : Occurrence π ε} (h : o.proc ∈ R.procs) :
    R.due (L ++ [o]) = R.due L + (R.react o (R.after (R.start o.proc) (own o.proc L))).2 := by
  rw [due, due, add_assoc]
  congr 1
  rw [← add_zero (∑ p ∈ R.procs, _)]
  apply sum_exchange h
  · intro p hp
    rw [own_append, own_singleton_of_ne (Ne.symm hp), List.append_nil]
  · rw [own_append, own_singleton_self, spawned_append_singleton, add_zero, Multiset.coe_add]

/-- Every event is due when it is begun. -/
inductive Execution : List (Occurrence π ε) → Prop
  | nil : Execution []
  | snoc {L : List (Occurrence π ε)} {o : Occurrence π ε} (h : Execution L)
      (hproc : o.proc ∈ R.procs) (hdue : ((L ++ [o] : List _) : Multiset _) ≤ R.due L) :
      Execution (L ++ [o])

/-- Whatever is still to be done is for time `F` or later. -/
def Settled (F : Nat) (L : List (Occurrence π ε)) : Prop :=
  ∃ rest : Multiset (Occurrence π ε), ↑L + rest = R.due L ∧ ∀ o ∈ rest, F ≤ o.time

variable {R}

theorem Execution.proc_mem {L : List (Occurrence π ε)} (h : R.Execution L) :
    ∀ o ∈ L, o.proc ∈ R.procs := by
  induction h with
  | nil => simp
  | snoc _ hproc _ ih =>
      intro o ho
      cases List.mem_append.mp ho with
      | inl hold => exact ih o hold
      | inr hnew => exact List.mem_singleton.mp hnew ▸ hproc

theorem Settled.count_due [DecidableEq (Occurrence π ε)] {F : Nat} {L : List (Occurrence π ε)}
    (h : R.Settled F L) {a : Occurrence π ε} (ha : a.time < F) : (R.due L).count a = L.count a := by
  obtain ⟨rest, hrest, hlate⟩ := h
  have hnone : rest.count a = 0 :=
    Multiset.count_eq_zero.mpr fun hmem => (ha.trans_le (hlate a hmem)).false
  rw [← hrest, Multiset.count_add, hnone, Nat.add_zero, Multiset.coe_count]

theorem count_due_le [DecidableEq (Occurrence π ε)] {X Y : List (Occurrence π ε)}
    (hX : ∀ p, Chronological (own p X)) (hY : ∀ p, Chronological (own p Y)) {a : Occurrence π ε}
    (h : ∀ p, (own p X).filter (fun o => o.time ≤ a.time) <+:
      (own p Y).filter (fun o => o.time ≤ a.time)) :
    (R.due X).count a ≤ (R.due Y).count a := by
  simp only [due, Multiset.count_add, Multiset.count_sum', Multiset.coe_count]
  refine Nat.add_le_add_left (Finset.sum_le_sum fun p _ => ?_) _
  exact R.count_spawned_le (hX p) (hY p) _ a (h p)

theorem own_at_eq [DecidableEq (Occurrence π ε)] {L Y : List (Occurrence π ε)} {o : Occurrence π ε}
    (hcount : (L ++ [o]).count o ≤ Y.count o)
    (hone : ((own o.proc Y).filter fun a => a.time = o.time).length ≤ 1) :
    (own o.proc Y).filter (fun a => a.time = o.time) = [o] ∧ o ∉ L := by
  rw [List.count_append, List.count_singleton_self] at hcount
  have hY : ((own o.proc Y).filter fun a => a.time = o.time).count o = Y.count o := by
    rw [List.count_filter (by simp), own, List.count_filter (by simp)]
  have hat : (own o.proc Y).filter (fun a => a.time = o.time) = [o] := by
    refine eq_singleton_of_mem (List.count_pos_iff.mp ?_) hone
    omega
  rw [hat, List.count_singleton_self] at hY
  exact ⟨hat, List.count_eq_zero.mp (by omega)⟩

/-- An execution that agrees with a settled one before a time does nothing at this time that the
settled one does not, where no process of the latter has two events of this time. -/
theorem Execution.upto_prefix {X Y : List (Occurrence π ε)} {t F : Nat} (hX : R.Execution X)
    (hXs : ∀ p, Chronological (own p X)) (hYs : ∀ p, Chronological (own p Y))
    (hsettled : R.Settled F Y) (ht : t < F)
    (hone : ∀ p, ((own p Y).filter fun o => o.time = t).length ≤ 1)
    (hbefore : ∀ p, (own p X).filter (fun o => o.time < t) <+:
      (own p Y).filter fun o => o.time < t)
    (hsame : ∀ o ∈ X, o.time = t → (own o.proc X).filter (fun o => o.time < t) =
      (own o.proc Y).filter fun o => o.time < t) (p : π) :
    (own p X).filter (fun o => o.time ≤ t) <+: (own p Y).filter fun o => o.time ≤ t := by
  classical
  induction hX generalizing p with
  | nil => exact List.nil_prefix
  | @snoc L o hL hproc hdue ih =>
      have hLs : ∀ q, Chronological (own q L) := fun q => by
        have h := hXs q
        rw [own_append] at h
        exact (List.pairwise_append.mp h).1
      have hother : ∀ q, q ≠ o.proc → own q (L ++ [o]) = own q L := fun q hq => by
        rw [own_append, own_singleton_of_ne (Ne.symm hq), List.append_nil]
      have hself : own o.proc (L ++ [o]) = own o.proc L ++ [o] := by
        rw [own_append, own_singleton_self]
      have hlast : ∀ a ∈ own o.proc L, a.time ≤ o.time := (hself ▸ hXs o.proc).le_last
      have hLbefore : ∀ q, (own q L).filter (fun o => o.time < t) <+:
          (own q Y).filter fun o => o.time < t := fun q => by
        refine List.IsPrefix.trans ?_ (hbefore q)
        rw [own_append, List.filter_append]
        exact List.prefix_append _ _
      have hLsame : ∀ a ∈ L, a.time = t → (own a.proc L).filter (fun o => o.time < t) =
          (own a.proc Y).filter fun o => o.time < t := by
        intro a ha hat
        rw [← hsame a (List.mem_append_left _ ha) hat]
        by_cases hq : a.proc = o.proc
        · have hle : t ≤ o.time := hat ▸ hlast a (mem_own.mpr ⟨ha, hq⟩)
          rw [hq, hself, List.filter_append]
          simp [hle.not_gt]
        · rw [hother _ hq]
      have hL' := ih hLs hLbefore hLsame
      by_cases hp : p = o.proc
      · subst hp
        rcases Nat.lt_trichotomy o.time t with hlt | heq | hgt
        · -- the process has not come to the time yet
          rw [(hXs o.proc).filter_le, (hYs o.proc).filter_le]
          have hnone : (own o.proc (L ++ [o])).filter (fun a => a.time = t) = [] := by
            rw [List.filter_eq_nil_iff]
            intro a ha
            have hle : a.time ≤ o.time := by
              rw [hself, List.mem_append, List.mem_singleton] at ha
              exact ha.elim (hlast a) fun h => h ▸ le_rfl
            simp only [decide_eq_true_eq]
            omega
          rw [hnone, List.append_nil]
          exact (hbefore o.proc).trans (List.prefix_append _ _)
        · -- the event is due in the settled execution, so it is the one that is done there
          have hcount : (L ++ [o]).count o ≤ Y.count o :=
            calc (L ++ [o]).count o
                _ ≤ (R.due L).count o := by
                  rw [← Multiset.coe_count]
                  exact Multiset.count_le_of_le o hdue
                _ ≤ (R.due Y).count o := count_due_le hLs hYs (heq ▸ hL')
                _ = Y.count o := hsettled.count_due (heq ▸ ht)
          obtain ⟨hat, hfresh⟩ := own_at_eq hcount (heq ▸ hone o.proc)
          rw [heq] at hat
          have hnone : (own o.proc L).filter (fun a => a.time = t) = [] := by
            rw [List.filter_eq_nil_iff]
            intro a ha hat'
            have hin : a ∈ (own o.proc Y).filter fun a => a.time ≤ t :=
              (hL' o.proc).subset (List.mem_filter.mpr ⟨ha, by simp_all⟩)
            have ho : a ∈ (own o.proc Y).filter fun a => a.time = t :=
              List.mem_filter.mpr ⟨(List.mem_filter.mp hin).1, hat'⟩
            rw [hat, List.mem_singleton] at ho
            exact hfresh (ho ▸ (mem_own.mp ha).1)
          rw [(hXs o.proc).filter_le, (hYs o.proc).filter_le, hat,
            hsame o (List.mem_append_right _ (List.mem_singleton_self o)) heq, hself,
            List.filter_append, hnone]
          simp [heq]
        · have hdrop : (own o.proc (L ++ [o])).filter (fun a => a.time ≤ t) =
              (own o.proc L).filter fun a => a.time ≤ t := by
            rw [hself, List.filter_append]
            simp [hgt.not_ge]
          exact hdrop ▸ hL' o.proc
      · exact (hother p hp).symm ▸ hL' p

/-- What a process does before a time, in an execution that has settled it, is what it does there in
any other. -/
theorem Execution.agree {X Y : List (Occurrence π ε)} {F : Nat} (hX : R.Execution X)
    (hY : R.Execution Y) (hXs : ∀ p, Chronological (own p X)) (hYs : ∀ p, Chronological (own p Y))
    (hXF : R.Settled F X) (hYF : R.Settled F Y)
    (hstrict : ∀ p, (own p Y).Pairwise fun a b => b.time < F → a.time < b.time) {t : Nat}
    (ht : t ≤ F) (p : π) :
    (own p X).filter (fun o => o.time < t) = (own p Y).filter fun o => o.time < t := by
  induction t generalizing p with
  | zero => simp
  | succ t ih =>
      have hbefore : ∀ q, (own q X).filter (fun o => o.time < t) =
          (own q Y).filter fun o => o.time < t := ih (by omega)
      have honeY : ∀ q, ((own q Y).filter fun o => o.time = t).length ≤ 1 := by
        intro q
        have hpair := (hstrict q).filter fun o => o.time = t
        have hat : ∀ o ∈ (own q Y).filter (fun o => o.time = t), o.time = t := by simp
        generalize (own q Y).filter (fun o => o.time = t) = l at hpair hat
        cases l with
        | nil => exact Nat.zero_le _
        | cons a as =>
            cases as with
            | nil => exact le_rfl
            | cons b bs =>
                have hlt := (List.pairwise_cons.mp hpair).1 b List.mem_cons_self
                have ha := hat a List.mem_cons_self
                have hb := hat b (List.mem_cons_of_mem a List.mem_cons_self)
                omega
      have hle := fun q => hX.upto_prefix hXs hYs hYF (by omega) honeY
        (fun q => hbefore q ▸ List.prefix_rfl) (fun o _ _ => hbefore o.proc) q
      have honeX : ∀ q, ((own q X).filter fun o => o.time = t).length ≤ 1 := by
        intro q
        have hlen := (hle q).length_le
        rw [(hXs q).filter_le, (hYs q).filter_le, List.length_append, List.length_append,
          hbefore q] at hlen
        exact (Nat.le_of_add_le_add_left hlen).trans (honeY q)
      have hge := hY.upto_prefix hYs hXs hXF (by omega) honeX
        (fun q => hbefore q ▸ List.prefix_rfl) (fun o _ _ => (hbefore o.proc).symm) p
      simp only [Nat.lt_succ_iff]
      exact (hle p).eq_of_length_le hge.length_le

end

end Reactive

end CollectiveSim.Framework
