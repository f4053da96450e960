import Mathlib
import CollectiveSim.Switch.View

/-!
# The byte matrix

What the packets in the output queues add up to, by port of arrival, port of departure and queue,
is the matrix that `m_bytes` is meant to hold and whose row and column sums the unit is meant to
count.
-/

open scoped BigOperators

namespace CollectiveSim.Switch

open Framework

/-- The bytes of the row of a port and queue. The unit does not count queue 0. -/
def rowSum (b : Nat × Nat × Nat → Nat) (k : Nat × Nat) : Nat :=
  if k.2 = 0 then 0 else ∑ o ∈ Finset.range pCnt, b (k.1, o, k.2)

/-- The bytes of the column of a port and queue. -/
def colSum (b : Nat × Nat × Nat → Nat) (k : Nat × Nat) : Nat :=
  if k.2 = 0 then 0 else ∑ i ∈ Finset.range pCnt, b (i, k.1, k.2)

section

variable {b b' : Nat × Nat × Nat → Nat} {i o q : Nat}

theorem lineSum_bump (line : Nat × Nat → Nat → Nat × Nat × Nat)
    (hline : ∀ k k' j j', line k j = line k' j' ↔ k = k' ∧ j = j') (k : Nat × Nat) {j : Nat}
    (hj : j < pCnt) (hq : k.2 ≠ 0) (b : Nat × Nat × Nat → Nat) (n : Nat) (k' : Nat × Nat) :
    (if k'.2 = 0 then 0 else ∑ j' ∈ Finset.range pCnt, bump b (line k j) n (line k' j')) =
      (if k'.2 = 0 then 0 else ∑ j' ∈ Finset.range pCnt, b (line k' j')) +
        if k' = k then n else 0 := by
  by_cases heq : k' = k
  · subst heq
    rw [if_neg hq, if_neg hq, if_pos rfl]
    simp only [bump_apply, hline, true_and, Finset.sum_add_distrib]
    rw [Finset.sum_ite_eq' _ j fun _ => n, if_pos (Finset.mem_range.mpr hj)]
  · rw [if_neg heq, Nat.add_zero]
    have hne : ∀ j', line k' j' ≠ line k j := by
      intro j' h
      exact heq ((hline _ _ _ _).mp h).1
    simp only [bump_of_ne (hne _)]

theorem rowSum_bump (ho : o < pCnt) (hq : q ≠ 0) (b : Nat × Nat × Nat → Nat) (n : Nat) :
    rowSum (bump b (i, o, q) n) = bump (rowSum b) (i, q) n := by
  funext k
  rw [bump_apply, rowSum, rowSum]
  refine lineSum_bump (fun k o => (k.1, o, k.2)) ?_ (i, q) ho hq b n k
  intro k k' o o'
  rw [Prod.mk.injEq, Prod.mk.injEq, Prod.ext_iff]
  tauto

theorem colSum_bump (hi : i < pCnt) (hq : q ≠ 0) (b : Nat × Nat × Nat → Nat) (n : Nat) :
    colSum (bump b (i, o, q) n) = bump (colSum b) (o, q) n := by
  funext k
  rw [bump_apply, colSum, colSum]
  refine lineSum_bump (fun k i => (i, k.1, k.2)) ?_ (o, q) hi hq b n k
  intro k k' i i'
  rw [Prod.mk.injEq, Prod.mk.injEq]
  tauto

theorem rowSum_le_bump (b : Nat × Nat × Nat → Nat) (j : Nat × Nat × Nat) (n : Nat) (k : Nat × Nat) :
    rowSum b k ≤ rowSum (bump b j n) k := by
  rw [rowSum, rowSum]
  split
  · exact Nat.le_refl _
  · apply Finset.sum_le_sum
    intro o _
    rw [bump_apply]
    exact Nat.le_add_right _ _

theorem sums_congr (b b' : Nat × Nat × Nat → Nat)
    (h : ∀ i o q, q ≠ 0 → b (i, o, q) = b' (i, o, q)) :
    rowSum b = rowSum b' ∧ colSum b = colSum b' := by
  constructor <;> funext k
  · rw [rowSum, rowSum]
    split
    · rfl
    next hq => exact Finset.sum_congr rfl fun o _ => h _ o _ hq
  · rw [colSum, colSum]
    split
    · rfl
    next hq => exact Finset.sum_congr rfl fun i _ => h i _ _ hq

end

namespace View

variable {cfg : NodeConfig} {v : View}

/-- The total size of the packets received on a port that wait for a port in a queue. -/
def bytes (v : View) (k : Nat × Nat × Nat) : Nat :=
  total Packet.inDev Packet.size (v.packets (k.2.1, k.2.2)) k.1

@[simp] theorem bytes_pause (inDev qIndex : Nat) : (v.pause cfg inDev qIndex).bytes = v.bytes := by
  rw [pause]
  split <;> rfl

@[simp] theorem bytes_resume (inDev qIndex : Nat) :
    (v.resume cfg inDev qIndex).bytes = v.bytes := by
  rw [resume]
  split <;> rfl

@[simp] theorem bytes_accept (p : Packet) : (v.accept cfg p).bytes = v.bytes := by
  rw [accept]
  split
  · rfl
  · rw [bytes_pause]
    rfl

@[simp] theorem bytes_release (port qIndex : Nat) (p : Packet) :
    (v.release cfg port qIndex p).bytes = v.bytes := by
  rw [release]
  split
  · rfl
  · rw [bytes_resume]
    rfl

theorem bytes_update {v v' : View} {p : Packet} {port q : Nat} {l l' : List Packet}
    (hperm : l'.Perm (p :: l)) (hv : v.packets (port, q) = l)
    (h : v'.packets = Function.update v.packets (port, q) l') :
    v'.bytes = bump v.bytes (p.inDev, port, q) p.size := by
  funext k
  obtain ⟨i, o, j⟩ := k
  rw [bytes, h]
  by_cases heq : (o, j) = (port, q)
  · rw [Prod.mk.injEq] at heq
    obtain ⟨rfl, rfl⟩ := heq
    rw [Function.update_self, total_perm _ _ hperm, total_cons, bump_apply, bump_apply, bytes, hv]
    simp
  · rw [Function.update_of_ne heq, bump_of_ne, bytes]
    intro hk
    exact heq (congrArg Prod.snd hk)

theorem bytes_send (p : Packet) (taken : Bool) :
    (v.send p taken).bytes =
      if taken then bump v.bytes (p.inDev, p.outDev, p.qIndex) p.size else v.bytes := by
  cases taken with
  | false => rfl
  | true => exact bytes_update (List.perm_append_singleton p _) rfl rfl

theorem bytes_take {port q : Nat} {p : Packet} {rest : List Packet}
    (h : v.packets (port, q) = p :: rest) :
    v.bytes = bump (v.take port q rest).bytes (p.inDev, port, q) p.size := by
  refine bytes_update (List.Perm.refl (p :: rest)) (Function.update_self ..) ?_
  rw [take, Function.update_idem, ← h, Function.update_eq_self]

/-- The unit counts what is queued, and every queued packet came in by a port and waits in one of
the queues. -/
structure Booked (cfg : NodeConfig) (v : View) : Prop where
  sound : Mmu.Sound cfg.mmu v.mmu (rowSum v.bytes) (colSum v.bytes)
  placed : ∀ k, ∀ p ∈ v.packets k, p.inDev < pCnt ∧ k.2 < qCnt

theorem Booked.packets_eq_nil (h : Booked cfg v) {k : Nat × Nat} (hk : qCnt ≤ k.2) :
    v.packets k = [] := by
  rw [List.eq_nil_iff_forall_not_mem]
  intro p hp
  exact Nat.not_lt.mpr hk (h.placed k p hp).2

theorem initial_booked (cfg : NodeConfig) : Booked cfg initial where
  sound := by
    have hzero : rowSum initial.bytes = (fun _ => 0) ∧ colSum initial.bytes = fun _ => 0 := by
      constructor <;> funext k <;> simp [rowSum, colSum, bytes, initial]
    rw [hzero.1, hzero.2]
    exact Mmu.initial_sound cfg.mmu
  placed _ _ hp := absurd hp List.not_mem_nil

end View

theorem Mmu.Sound.of_paused {cfg : MmuConfig} {m : Mmu} {f g : Nat × Nat → Nat}
    (h : Sound cfg m f g) (paused : Nat × Nat → Bool) : Sound cfg { m with paused := paused } f g :=
  ⟨⟨h.ingress, h.egress, h.shared, h.headroom⟩, h.ingress_lt, h.shared_le, h.balanced⟩

namespace View

variable {cfg : NodeConfig} {v : View} {f g : Nat × Nat → Nat}

theorem sound_pause {inDev qIndex : Nat} (h : Mmu.Sound cfg.mmu v.mmu f g) :
    Mmu.Sound cfg.mmu (v.pause cfg inDev qIndex).mmu f g := by
  rw [pause]
  split
  · exact h.of_paused _
  · exact h

theorem sound_resume {inDev qIndex : Nat} (h : Mmu.Sound cfg.mmu v.mmu f g) :
    Mmu.Sound cfg.mmu (v.resume cfg inDev qIndex).mmu f g := by
  rw [resume]
  split
  · exact h.of_paused _
  · exact h

@[simp] theorem packets_pause (inDev qIndex : Nat) :
    (v.pause cfg inDev qIndex).packets = v.packets := by
  rw [pause]
  split <;> rfl

@[simp] theorem packets_resume (inDev qIndex : Nat) :
    (v.resume cfg inDev qIndex).packets = v.packets := by
  rw [resume]
  split <;> rfl

@[simp] theorem packets_accept (p : Packet) : (v.accept cfg p).packets = v.packets := by
  rw [accept]
  split
  · rfl
  · rw [packets_pause]

@[simp] theorem packets_release (port qIndex : Nat) (p : Packet) :
    (v.release cfg port qIndex p).packets = v.packets := by
  rw [release]
  split
  · rfl
  · rw [packets_resume]

theorem booked_accept {p : Packet} (h : Booked cfg v) (harr : Node.Arrives p) {taken : Bool}
    (hfits : p.qIndex ≠ 0 → v.mmu.checkIngressAdmission cfg.mmu p.inDev p.qIndex p.size = true ∧
      v.mmu.AdmissionFits cfg.mmu p.inDev p.qIndex p.size ∧ taken = true) :
    Booked cfg ((v.accept cfg p).send p taken) := by
  obtain ⟨hin, hout, -, hsize⟩ := harr
  constructor
  · rw [bytes_send, bytes_accept]
    show Mmu.Sound cfg.mmu (v.accept cfg p).mmu _ _
    rw [accept]
    by_cases hq : p.qIndex = 0
    · -- the unit does not see queue 0
      have hsame := sums_congr (if taken = true then
        bump v.bytes (p.inDev, p.outDev, p.qIndex) p.size else v.bytes) v.bytes (by
          intro i o q hne
          split
          · exact bump_of_ne (by simp [hq, hne]) _
          · rfl)
      rw [if_pos hq, hsame.1, hsame.2]
      exact h.sound
    · obtain ⟨hcheck, hfit, rfl⟩ := hfits hq
      rw [if_neg hq, if_pos rfl, rowSum_bump (mem_cells.mp hout).1 hq,
        colSum_bump (mem_cells.mp hin).1 hq]
      exact sound_pause (h.sound.accept hin hout hsize hcheck hfit)
  · intro k p' hp'
    rw [send, packets_accept] at hp'
    cases taken with
    | false => exact h.placed k p' hp'
    | true =>
        by_cases heq : k = (p.outDev, p.qIndex)
        · subst heq
          simp only [if_true, Function.update_self] at hp'
          rcases List.mem_append.mp hp' with hp' | hp'
          · exact h.placed _ p' hp'
          · rw [List.mem_singleton.mp hp']
            exact mem_cells.mp hin
        · simp only [if_true, Function.update_of_ne heq] at hp'
          exact h.placed k p' hp'

theorem booked_leave {port q : Nat} {p : Packet} {rest : List Packet} (h : Booked cfg v)
    (hport : port < pCnt) (hq : q < qCnt) (hhead : v.packets (port, q) = p :: rest) :
    Booked cfg ((v.take port q rest).release cfg port q p) := by
  have hp : p.inDev < pCnt := (h.placed _ p (by rw [hhead]; exact List.mem_cons_self)).1
  have hbytes := bytes_take hhead
  have hsound := h.sound
  constructor
  · rw [bytes_release]
    rw [hbytes] at hsound
    rw [release]
    by_cases hzero : q = 0
    · have hsame := sums_congr (bump (v.take port q rest).bytes (p.inDev, port, q) p.size)
        (v.take port q rest).bytes (fun i o j hne => bump_of_ne (by simp [hzero, hne]) _)
      rw [hsame.1, hsame.2] at hsound
      rw [if_pos hzero]
      exact hsound
    · rw [rowSum_bump hport hzero, colSum_bump hp hzero] at hsound
      rw [if_neg hzero]
      exact sound_resume (hsound.release (mem_cells.mpr ⟨hp, hq⟩) (mem_cells.mpr ⟨hport, hq⟩))
  · intro k p' hp'
    rw [packets_release, take] at hp'
    by_cases heq : k = (port, q)
    · subst heq
      simp only [Function.update_self] at hp'
      exact h.placed _ p' (by rw [hhead]; exact List.mem_cons_of_mem p hp')
    · simp only [Function.update_of_ne heq] at hp'
      exact h.placed k p' hp'

theorem booked_lose {packets : Nat × Nat → List Packet} (h : Booked cfg v)
    (hsub : ∀ k, packets k <:+ v.packets k)
    (hsame : ∀ k, k.2 ≠ 0 → packets k = v.packets k) :
    Booked cfg { v with packets := packets } := by
  constructor
  · have hsums := sums_congr (View.bytes { v with packets := packets }) v.bytes (by
      intro i o q hne
      simp only [bytes, hsame (o, q) hne])
    rw [hsums.1, hsums.2]
    exact h.sound
  · intro k p hp
    exact h.placed k p ((hsub k).mem hp)

end View

namespace Node

variable {cfg : NodeConfig}

/-- The unit's books survive the event: a packet it admits fits its counter and is taken by its
output queue, and a port is taken down only when no packet that the unit counts waits for it. -/
def KeepsBooks (cfg : NodeConfig) (s : Node) : Event → Prop
  | .arrive p => p.qIndex ≠ 0 → s.Admits cfg p →
      s.mmu.AdmissionFits cfg.mmu p.inDev p.qIndex p.size ∧ (s.noted p).Takes cfg p
  | .takeDown port => ∀ q < qCnt, q ≠ 0 → s.view.packets (port, q) = []
  | _ => True

instance (cfg : NodeConfig) (s : Node) (a : Event) : Decidable (KeepsBooks cfg s a) := by
  cases a <;> unfold KeepsBooks <;> infer_instance

theorem checks_of_admits {s : Node} {p : Packet} (h : s.Admits cfg p) (hq : p.qIndex ≠ 0) :
    s.mmu.checkIngressAdmission cfg.mmu p.inDev p.qIndex p.size = true :=
  (h.resolve_left hq).1

/-- Taking down a port that no counted packet waits for loses packets of queue 0 only. -/
theorem view_takeDown_of_keepsBooks {s t : Node} {port : Nat} (hinv : s.view.Booked cfg)
    (hok : KeepsBooks cfg s (.takeDown port)) (hstep : step cfg s (.takeDown port) = some t) :
    ∃ packets, t.view = { s.view with packets := packets } ∧
      (∀ k, packets k <:+ s.view.packets k) ∧
      ∀ k : Nat × Nat, k.2 ≠ 0 → packets k = s.view.packets k := by
  obtain ⟨packets, hview, hother, hsuffix⟩ := view_takeDown hstep
  refine ⟨packets, hview, ?_, ?_⟩
  · intro k
    by_cases hk : k.1 = port
    · subst hk
      exact hsuffix k.2
    · rw [hother k hk]
  · intro k hq
    by_cases hk : k.1 = port
    · subst hk
      have hnil : s.view.packets (k.1, k.2) = [] := by
        by_cases hlt : k.2 < qCnt
        · exact hok k.2 hlt hq
        · exact hinv.packets_eq_nil (Nat.not_lt.mp hlt)
      have hsub := hsuffix k.2
      rw [hnil, List.suffix_nil] at hsub
      exact hsub.trans hnil.symm
    · exact hother k hk

theorem booked_step {s t : Node} {a : Event} (hinv : s.view.Booked cfg)
    (hok : KeepsBooks cfg s a) (hstep : step cfg s a = some t) : t.view.Booked cfg := by
  cases a with
  | arrive p =>
      obtain ⟨harr, hview⟩ := view_arrive hstep
      have hnoted : (s.view.arrive p).Booked cfg := ⟨hinv.sound, hinv.placed⟩
      rw [hview]
      by_cases hadm : s.Admits cfg p
      · rw [if_pos hadm]
        apply View.booked_accept hnoted harr
        intro hq
        exact ⟨checks_of_admits hadm hq, (hok hq hadm).1, decide_eq_true (hok hq hadm).2⟩
      · rw [if_neg hadm]
        exact ⟨hinv.sound, hinv.placed⟩
  | transmit port =>
      obtain ⟨hport, hview | ⟨q, hq, p, rest, hhead, -, hview⟩⟩ := view_transmit hstep
      · rw [hview]
        exact hinv
      · rw [hview]
        exact View.booked_leave hinv hport hq hhead
  | pfcReceived port qIndex pause =>
      rw [view_pfcReceived hstep]
      exact hinv
  | takeDown port =>
      obtain ⟨packets, hview, hsub, hsame⟩ := view_takeDown_of_keepsBooks hinv hok hstep
      rw [hview]
      exact View.booked_lose hinv hsub hsame

/-- The matrix holds what is queued, and the unit counts its rows and columns. -/
structure MatrixCorrect (v : View) : Prop where
  matrix : ∀ i < pCnt, ∀ o < pCnt, ∀ q < qCnt, v.mBytes (i, o, q) = v.bytes (i, o, q)
  rows : ∀ i < pCnt, ∀ q < qCnt, q ≠ 0 → v.mmu.ingressBytes (i, q) + v.mmu.hdrmBytes (i, q) =
    ∑ o ∈ Finset.range pCnt, v.mBytes (i, o, q)
  cols : ∀ o < pCnt, ∀ q < qCnt, q ≠ 0 → v.mmu.egressBytes (o, q) =
    ∑ i ∈ Finset.range pCnt, v.mBytes (i, o, q)

/-- The byte matrix survives the event: an admitted packet fits its counters and is taken by its
output queue, what is transmitted from queue 0 is no received packet, and a port is taken down only
when no received packet waits for it. -/
def CountsBytes (cfg : NodeConfig) (s : Node) : Event → Prop
  | .arrive p => s.Admits cfg p →
      (p.qIndex ≠ 0 → s.mmu.AdmissionFits cfg.mmu p.inDev p.qIndex p.size) ∧
        (s.noted p).Takes cfg p ∧ s.mBytes (p.inDev, p.outDev, p.qIndex) + p.size < 2 ^ 32
  | .transmit port => ((s.devices port).queue.queues 0).head?.bind Frame.packet? = none
  | .takeDown port => ∀ q < qCnt, s.view.packets (port, q) = []
  | .pfcReceived .. => True

instance (cfg : NodeConfig) (s : Node) (a : Event) : Decidable (CountsBytes cfg s a) := by
  cases a <;> unfold CountsBytes <;> infer_instance

theorem keepsBooks_of_countsBytes {s : Node} {a : Event} (h : CountsBytes cfg s a) :
    KeepsBooks cfg s a := by
  cases a with
  | arrive p => exact fun hq hadm => ⟨(h hadm).1 hq, (h hadm).2.1⟩
  | transmit port => trivial
  | pfcReceived port qIndex pause => trivial
  | takeDown port => exact fun q hq _ => h q hq

@[simp] theorem mBytes_pause (v : View) (inDev qIndex : Nat) :
    (v.pause cfg inDev qIndex).mBytes = v.mBytes := by
  rw [View.pause]
  split <;> rfl

@[simp] theorem mBytes_resume (v : View) (inDev qIndex : Nat) :
    (v.resume cfg inDev qIndex).mBytes = v.mBytes := by
  rw [View.resume]
  split <;> rfl

@[simp] theorem mBytes_accept (v : View) (p : Packet) : (v.accept cfg p).mBytes = v.mBytes := by
  rw [View.accept]
  split
  · rfl
  · rw [mBytes_pause]

/-- The matrix is that of what is queued, and its entries are words. -/
structure MatrixHolds (v : View) : Prop where
  matrix : v.mBytes = v.bytes
  word : ∀ k, v.mBytes k < 2 ^ 32

theorem matrixHolds_send {v : View} {p : Packet} (h : MatrixHolds v)
    (hlt : v.mBytes (p.inDev, p.outDev, p.qIndex) + p.size < 2 ^ 32) :
    MatrixHolds ((v.accept cfg p).send p true) := by
  have hword : ((v.accept cfg p).send p true).mBytes =
      bump v.mBytes (p.inDev, p.outDev, p.qIndex) p.size := by
    simp only [View.send, mBytes_accept]
    rw [u32_of_lt hlt]
    rfl
  constructor
  · rw [hword, View.bytes_send, View.bytes_accept, if_pos rfl, h.matrix]
  · intro k
    rw [hword]
    by_cases heq : k = (p.inDev, p.outDev, p.qIndex)
    · rw [heq, bump_self]
      exact hlt
    · rw [bump_of_ne heq]
      exact h.word k

/-- The subtraction of a packet that leaves strikes out what the packet brought. -/
theorem matrixHolds_leave {v : View} {p : Packet} {port q : Nat} {rest : List Packet}
    (h : MatrixHolds v) (hhead : v.packets (port, q) = p :: rest) (hq : q ≠ 0) :
    MatrixHolds ((v.take port q rest).release cfg port q p) := by
  have hbytes := View.bytes_take hhead
  have hlt := h.word (p.inDev, port, q)
  rw [h.matrix, hbytes, bump_self] at hlt
  have hword : ((v.take port q rest).release cfg port q p).mBytes =
      (v.take port q rest).bytes := by
    rw [View.release, if_neg hq, mBytes_resume]
    show Function.update v.mBytes (p.inDev, port, q)
      (sub32 (v.mBytes (p.inDev, port, q)) p.size) = _
    rw [h.matrix, hbytes]
    funext k
    by_cases heq : k = (p.inDev, port, q)
    · rw [heq, Function.update_self, bump_self, sub32_of_le (Nat.le_add_left _ _) hlt]
      exact Nat.add_sub_cancel ..
    · rw [Function.update_of_ne heq, bump_of_ne heq]
  constructor
  · rw [hword, View.bytes_release]
  · intro k
    rw [hword]
    refine Nat.lt_of_le_of_lt ?_ (h.word k)
    rw [h.matrix, hbytes, bump_apply]
    exact Nat.le_add_right _ _

theorem matrixHolds_step {s t : Node} {a : Event} (hbooked : s.view.Booked cfg)
    (hinv : MatrixHolds s.view) (hok : CountsBytes cfg s a) (hstep : step cfg s a = some t) :
    MatrixHolds t.view := by
  cases a with
  | arrive p =>
      obtain ⟨-, hview⟩ := view_arrive hstep
      rw [hview]
      by_cases hadm : s.Admits cfg p
      · obtain ⟨-, htakes, hlt⟩ := hok hadm
        rw [if_pos hadm, decide_eq_true htakes]
        have harrived : MatrixHolds (s.view.arrive p) := ⟨hinv.matrix, hinv.word⟩
        exact matrixHolds_send harrived hlt
      · rw [if_neg hadm]
        exact ⟨hinv.matrix, hinv.word⟩
  | transmit port =>
      obtain ⟨-, hview | ⟨q, -, p, rest, hhead, hframe, hview⟩⟩ := view_transmit hstep
      · rw [hview]
        exact hinv
      · have hq : q ≠ 0 := by
          rintro rfl
          simp [CountsBytes, hframe, Frame.packet?] at hok
        rw [hview]
        exact matrixHolds_leave hinv hhead hq
  | pfcReceived port qIndex pause =>
      rw [view_pfcReceived hstep]
      exact hinv
  | takeDown port =>
      obtain ⟨packets, hview, hother, hsuffix⟩ := view_takeDown hstep
      have hsame : packets = s.view.packets := by
        funext k
        by_cases hk : k.1 = port
        · subst hk
          have hnil : s.view.packets (k.1, k.2) = [] := by
            by_cases hlt : k.2 < qCnt
            · exact hok k.2 hlt
            · exact hbooked.packets_eq_nil (Nat.not_lt.mp hlt)
          have hsub := hsuffix k.2
          rw [hnil, List.suffix_nil] at hsub
          exact hsub.trans hnil.symm
        · exact hother k hk
      rw [hview, hsame]
      exact hinv

theorem matrixCorrect_of_holds {v : View} (hbooked : v.Booked cfg) (h : MatrixHolds v) :
    MatrixCorrect v := by
  constructor
  · intro i _ o _ q _
    rw [h.matrix]
  · intro i hi q hq hzero
    rw [hbooked.sound.ingress _ (mem_cells.mpr ⟨hi, hq⟩), rowSum, if_neg hzero, h.matrix]
  · intro o ho q hq hzero
    rw [hbooked.sound.egress _ (mem_cells.mpr ⟨ho, hq⟩), colSum, if_neg hzero, h.matrix]

/-- In a run that counts its bytes, of either class of node, the byte matrix and the counters of
the unit are right. -/
theorem matrixCorrect (cfg : NodeConfig) (as : List Event) (s : Node)
    (h : Run (step cfg) (CountsBytes cfg) initial as s) : MatrixCorrect s.view := by
  have hinv : s.view.Booked cfg ∧ MatrixHolds s.view := by
    apply h.invariant
    · intro s a t hinv hok hstep
      exact ⟨booked_step hinv.1 (keepsBooks_of_countsBytes hok) hstep,
        matrixHolds_step hinv.1 hinv.2 hok hstep⟩
    · exact ⟨View.initial_booked cfg, rfl, fun _ => Nat.two_pow_pos 32⟩
  exact matrixCorrect_of_holds hinv.1 hinv.2

/-- Three megabytes of headroom on every port of a small switch. -/
def smallSwitch (kind : NodeKind) : NodeConfig where
  kind := kind
  mmu :=
    { bufferSize := 12 * 1024 * 1024
      pfcAShift := fun _ => 3
      reserve := 4096
      headroom := fun _ => 3000000
      resumeOffset := 3072
      totalHdrm := 9000000
      totalRsrv := 3 * 4096
      bufferSize_lt := twelveMegabytes_lt
      reserve_lt := fourKilobytes_lt
      headroom_lt := fun _ => by decide
      totalHdrm_lt := by decide
      totalRsrv_lt := by decide }
  limits := .default

/-- A data packet that comes in and leaves. -/
theorem smallSwitch_matrixCorrect :
    ∃ t, Run (step (smallSwitch .switch)) (CountsBytes (smallSwitch .switch)) initial
        [.arrive ⟨1, 2, 3, 1000⟩, .transmit 2] t ∧ MatrixCorrect t.view := by
  obtain ⟨t, hrun, -⟩ := exists_run (step (smallSwitch .switch))
    (CountsBytes (smallSwitch .switch)) (fun _ => True) initial
    [.arrive ⟨1, 2, 3, 1000⟩, .transmit 2] (by decide +kernel)
  exact ⟨t, hrun, matrixCorrect _ _ t hrun⟩

/-- An acknowledgement of high priority that comes in and leaves stays in the matrix. -/
theorem not_matrixCorrect :
    ¬ ∀ (cfg : NodeConfig) (as : List Event) (s : Node), Run (step cfg) anyEvent initial as s →
      MatrixCorrect s.view := by
  intro hall
  obtain ⟨s, hrun, hentry, hgone⟩ := exists_run (step (smallSwitch .switch)) anyEvent
    (fun s => s.mBytes (1, 2, 0) = 60 ∧ s.view.packets (2, 0) = []) initial
    [.arrive ⟨1, 2, 0, 60⟩, .transmit 2] (by decide +kernel)
  have hport : 2 < pCnt := by rw [pCnt_eq]; decide
  have hmatrix := (hall _ _ s hrun).matrix 1 (by omega) 2 hport 0 (by decide)
  have hmatrix : s.mBytes (1, 2, 0) = 0 := by
    rw [View.bytes, hgone] at hmatrix
    exact hmatrix
  omega

end Node

end CollectiveSim.Switch
