import Mathlib
import CollectiveSim.Switch.ByteMatrix

/-!
# Every pause is followed by its resume

The pause flag of a port and queue is the parity of the PFC frames sent for it. A queue whose last
byte leaves satisfies the resume condition whatever the other ports do to the threshold.
-/

open scoped BigOperators

namespace CollectiveSim.Switch

open Framework

/-- Whether an entry of the log is a PFC frame for a port and queue, and of which type. -/
def Note.pfc? (k : Nat × Nat) : Note → Option Bool
  | pfc port qIndex pause => if (port, qIndex) = k then some pause else none
  | _ => none

/-- The PFC frames for a port and queue, in order: `true` pauses and `false` resumes. -/
def pfcFrames (k : Nat × Nat) (log : List Note) : List Bool := log.filterMap (Note.pfc? k)

theorem pfcFrames_append (k : Nat × Nat) (l l' : List Note) :
    pfcFrames k (l ++ l') = pfcFrames k l ++ pfcFrames k l' := List.filterMap_append

/-- Pause, resume, pause, and so on. -/
def Alternates (frames : List Bool) : Prop :=
  frames = (List.range frames.length).map fun n => decide (n % 2 = 0)

theorem Alternates.append {frames : List Bool} (h : Alternates frames) {pause : Bool}
    (hpause : pause = decide (frames.length % 2 = 0)) : Alternates (frames ++ [pause]) := by
  rw [Alternates, List.length_append, List.length_singleton, List.range_succ, List.map_append,
    List.map_singleton, ← h, hpause]

namespace View

variable {cfg : NodeConfig} {v : View}

/-- The frames of a queue alternate, and the flag says which of the two was the last. -/
structure InStep (v : View) (k : Nat × Nat) : Prop where
  alternates : Alternates (pfcFrames k v.log)
  parity : v.mmu.paused k = decide ((pfcFrames k v.log).length % 2 = 1)

theorem InStep.of_eq {v' : View} {k : Nat × Nat} (h : InStep v k)
    (hlog : pfcFrames k v'.log = pfcFrames k v.log) (hpaused : v'.mmu.paused k = v.mmu.paused k) :
    InStep v' k := by
  constructor
  · rw [hlog]
    exact h.alternates
  · rw [hlog, hpaused]
    exact h.parity

/-- A frame that turns the flag over keeps both in step. -/
theorem InStep.send {k : Nat × Nat} {pause : Bool} (h : InStep v k)
    (hturn : v.mmu.paused k = !pause) {v' : View} (hlog : v'.log = v.log ++ [.pfc k.1 k.2 pause])
    (hpaused : v'.mmu.paused k = pause) : InStep v' k := by
  have hframes : pfcFrames k v'.log = pfcFrames k v.log ++ [pause] := by
    rw [hlog, pfcFrames_append]
    simp [pfcFrames, Note.pfc?]
  have hparity := h.parity
  rw [hturn] at hparity
  constructor
  · rw [hframes]
    apply h.alternates.append
    cases pause with
    | true =>
        have heven : ¬ (pfcFrames k v.log).length % 2 = 1 := by simpa using hparity
        rw [eq_comm, decide_eq_true_iff]
        omega
    | false =>
        have hodd : (pfcFrames k v.log).length % 2 = 1 := by simpa using hparity
        rw [eq_comm, decide_eq_false_iff_not]
        omega
  · rw [hframes, hpaused, List.length_append, List.length_singleton]
    cases pause with
    | true =>
        have heven : ¬ (pfcFrames k v.log).length % 2 = 1 := by simpa using hparity
        rw [eq_comm, decide_eq_true_iff]
        omega
    | false =>
        have hodd : (pfcFrames k v.log).length % 2 = 1 := by simpa using hparity
        rw [eq_comm, decide_eq_false_iff_not]
        omega

theorem pfcFrames_of_ne {k : Nat × Nat} {port qIndex : Nat} (h : k ≠ (port, qIndex))
    (log : List Note) (pause : Bool) :
    pfcFrames k (log ++ [.pfc port qIndex pause]) = pfcFrames k log := by
  rw [pfcFrames_append]
  simp [pfcFrames, Note.pfc?, h.symm]

theorem inStep_pause {k : Nat × Nat} (h : InStep v k) (inDev qIndex : Nat) :
    InStep (v.pause cfg inDev qIndex) k := by
  rw [pause]
  split
  next hcheck =>
    by_cases heq : k = (inDev, qIndex)
    · subst heq
      have hp : v.mmu.paused (inDev, qIndex) = !true := by
        have hshould := hcheck.2
        simp only [Mmu.checkShouldPause, Bool.and_eq_true, Bool.not_eq_true'] at hshould
        exact hshould.1
      exact h.send hp rfl (Function.update_self ..)
    · exact h.of_eq (pfcFrames_of_ne heq _ _) (Function.update_of_ne heq _ _)
  · exact h

theorem inStep_resume {k : Nat × Nat} (h : InStep v k) (inDev qIndex : Nat) :
    InStep (v.resume cfg inDev qIndex) k := by
  rw [resume]
  split
  next hcheck =>
    by_cases heq : k = (inDev, qIndex)
    · subst heq
      have hp : v.mmu.paused (inDev, qIndex) = !false := by
        have hshould := hcheck.2
        simp only [Mmu.checkShouldResume, Bool.and_eq_true] at hshould
        exact hshould.1
      exact h.send hp rfl (Function.update_self ..)
    · exact h.of_eq (pfcFrames_of_ne heq _ _) (Function.update_of_ne heq _ _)
  · exact h

theorem checkShouldResume_of_drained {m : Mmu} {mmu : MmuConfig} {port qIndex : Nat}
    (hp : m.paused (port, qIndex) = true)
    (hzero : m.ingressBytes (port, qIndex) + m.hdrmBytes (port, qIndex) = 0) :
    m.checkShouldResume mmu port qIndex = true := by
  obtain ⟨hi, hh⟩ := Nat.add_eq_zero_iff.mp hzero
  have hshared : m.getSharedUsed mmu port qIndex = 0 := by
    rw [Mmu.getSharedUsed_eq, hi, Nat.zero_sub]
  simp [Mmu.checkShouldResume, hp, hh, hshared]

/-- Where the upstream of a queue is paused, bytes of the queue are buffered. -/
def Backed (v : View) (k : Nat × Nat) : Prop :=
  v.mmu.paused k = true → 0 < rowSum v.bytes k

theorem backed_resume (hkind : cfg.kind = .switch) {inDev qIndex : Nat} {k : Nat × Nat}
    (hothers : k ≠ (inDev, qIndex) → Backed v k)
    (hcounted : v.mmu.ingressBytes (inDev, qIndex) + v.mmu.hdrmBytes (inDev, qIndex) =
      rowSum v.bytes (inDev, qIndex)) :
    Backed (v.resume cfg inDev qIndex) k := by
  rw [Backed, bytes_resume, resume]
  by_cases hresume : v.mmu.checkShouldResume cfg.mmu inDev qIndex = true
  · rw [if_pos ⟨hkind, hresume⟩]
    intro hp
    by_cases heq : k = (inDev, qIndex)
    · subst heq
      simp [Mmu.setResume] at hp
    · simp only [Mmu.setResume, Function.update_of_ne heq] at hp
      exact hothers heq hp
  · rw [if_neg fun hboth => hresume hboth.2]
    intro hp
    by_cases heq : k = (inDev, qIndex)
    · subst heq
      apply Nat.pos_of_ne_zero
      intro hzero
      exact hresume (checkShouldResume_of_drained hp (hcounted.trans hzero))
    · exact hothers heq hp

end View

namespace Node

variable {cfg : NodeConfig}

/-- What is known of the PFC state of one queue. -/
structure PfcInv (v : View) (k : Nat × Nat) : Prop where
  inStep : v.InStep k
  backed : v.Backed k

/-- While the upstream of a port and queue is paused, its bytes are counted by the unit and one of its
packets is in an output queue; its PFC frames alternate. -/
structure Paired (v : View) (k : Nat × Nat) : Prop where
  counted : v.mmu.paused k = true → 0 < v.mmu.ingressBytes k + v.mmu.hdrmBytes k
  buffered : v.mmu.paused k = true → ∃ port, ∃ p ∈ v.packets (port, k.2), p.inDev = k.1
  alternates : Alternates (pfcFrames k v.log)

theorem PfcInv.paired {v : View} {k : Nat × Nat} (h : PfcInv v k) (hbooked : v.Booked cfg)
    (hk : k ∈ cells) : Paired v k where
  counted hp := by
    rw [hbooked.sound.ingress k hk]
    exact h.backed hp
  buffered hp := by
    have hpos := h.backed hp
    rw [rowSum] at hpos
    split at hpos
    · exact absurd hpos (Nat.lt_irrefl 0)
    · obtain ⟨port, -, hport⟩ := Finset.sum_pos_iff.mp hpos
      obtain ⟨p, hp, hin⟩ := exists_of_total_pos _ _ hport
      exact ⟨port, p, hp, hin⟩
  alternates := h.inStep.alternates

theorem pfcFrames_arrived (k : Nat × Nat) (log : List Note) (port qIndex size : Nat) :
    pfcFrames k (log ++ [.arrived port qIndex size]) = pfcFrames k log := by
  rw [pfcFrames_append]
  simp [pfcFrames, Note.pfc?]

theorem pfcFrames_dropped (k : Nat × Nat) (log : List Note) (port qIndex size : Nat) :
    pfcFrames k (log ++ [.dropped port qIndex size]) = pfcFrames k log := by
  rw [pfcFrames_append]
  simp [pfcFrames, Note.pfc?]

theorem inStep_accept {v : View} {k : Nat × Nat} (h : v.InStep k) (p : Packet) :
    (v.accept cfg p).InStep k := by
  rw [View.accept]
  split
  · exact h
  · apply View.inStep_pause
    refine h.of_eq rfl ?_
    show (v.mmu.accept cfg.mmu p.inDev p.outDev p.qIndex p.size).paused k = _
    rw [Mmu.accept_paused]

theorem paused_accept_of_ne {v : View} {p : Packet} {k : Nat × Nat}
    (h : p.qIndex = 0 ∨ k ≠ (p.inDev, p.qIndex)) :
    (v.accept cfg p).mmu.paused k = v.mmu.paused k := by
  rw [View.accept]
  split
  · rfl
  next hq =>
    have hne := h.resolve_left hq
    rw [View.pause]
    split
    · simp only [Mmu.setPause, Function.update_of_ne hne, Mmu.accept_paused]
    · rw [Mmu.accept_paused]

/-- An admitted packet backs the pause that it causes. -/
theorem backed_accept {v : View} {p : Packet} {taken : Bool} {k : Nat × Nat} (h : v.Backed k)
    (harr : Arrives p) (htaken : p.qIndex ≠ 0 → taken = true) :
    ((v.accept cfg p).send p taken).Backed k := by
  have hgrow : rowSum v.bytes k ≤ rowSum ((v.accept cfg p).send p taken).bytes k := by
    rw [View.bytes_send, View.bytes_accept]
    cases taken with
    | false => exact Nat.le_refl _
    | true => exact rowSum_le_bump _ _ _ _
  intro hp
  by_cases hown : p.qIndex ≠ 0 ∧ k = (p.inDev, p.qIndex)
  · obtain ⟨hq, rfl⟩ := hown
    have hpos : 0 < p.size := harr.2.2.1
    rw [htaken hq, View.bytes_send, View.bytes_accept, if_pos rfl,
      rowSum_bump (mem_cells.mp harr.2.1).1 hq, bump_self]
    omega
  · have hother : p.qIndex = 0 ∨ k ≠ (p.inDev, p.qIndex) := by
      by_contra hcon
      push Not at hcon
      exact hown hcon
    have hold : v.mmu.paused k = true := (paused_accept_of_ne hother).symm.trans hp
    exact Nat.lt_of_lt_of_le (h hold) hgrow

theorem pfcInv_leave (hkind : cfg.kind = .switch) {v : View} {p : Packet} {port q : Nat}
    {rest : List Packet} {k : Nat × Nat} (h : PfcInv v k) (hbooked : v.Booked cfg)
    (hport : port < pCnt) (hq : q < qCnt) (hhead : v.packets (port, q) = p :: rest) :
    PfcInv ((v.take port q rest).release cfg port q p) k := by
  have hbytes := View.bytes_take hhead
  have hafter := View.booked_leave hbooked hport hq hhead
  rw [View.release] at hafter ⊢
  by_cases hzero : q = 0
  · rw [if_pos hzero]
    have hsame := sums_congr v.bytes (v.take port q rest).bytes (by
      intro i o j hne
      rw [hbytes]
      exact bump_of_ne (by simp [hzero, hne]) _)
    refine ⟨h.inStep.of_eq rfl rfl, ?_⟩
    rw [View.Backed, ← hsame.1]
    exact h.backed
  · rw [if_neg hzero] at hafter ⊢
    have hin : p.inDev < pCnt :=
      (hbooked.placed _ p (by rw [hhead]; exact List.mem_cons_self)).1
    have hrow : rowSum v.bytes = bump (rowSum (v.take port q rest).bytes) (p.inDev, q) p.size := by
      rw [hbytes, rowSum_bump hport hzero]
    constructor
    · apply View.inStep_resume
      exact h.inStep.of_eq rfl rfl
    · apply View.backed_resume hkind
      · intro hne hp
        have hpos := h.backed hp
        rw [hrow, bump_of_ne hne] at hpos
        exact hpos
      · have hcount := hafter.sound.ingress (p.inDev, q) (mem_cells.mpr ⟨hin, hq⟩)
        rw [View.bytes_resume] at hcount
        refine Eq.trans ?_ hcount
        rw [View.resume]
        split <;> rfl

theorem pfcInv_step (hkind : cfg.kind = .switch) {s t : Node} {a : Event} {k : Nat × Nat}
    (hinv : PfcInv s.view k) (hbooked : s.view.Booked cfg) (hok : KeepsBooks cfg s a)
    (hstep : step cfg s a = some t) : PfcInv t.view k := by
  cases a with
  | arrive p =>
      obtain ⟨harr, hview⟩ := view_arrive hstep
      have harrived : (s.view.arrive p).InStep k :=
        hinv.inStep.of_eq (pfcFrames_arrived ..) rfl
      rw [hview]
      by_cases hadm : s.Admits cfg p
      · rw [if_pos hadm]
        refine ⟨(inStep_accept harrived p).of_eq rfl rfl, ?_⟩
        refine backed_accept (v := s.view.arrive p) hinv.backed harr ?_
        intro hq
        exact decide_eq_true (hok hq hadm).2
      · rw [if_neg hadm]
        exact ⟨harrived.of_eq (pfcFrames_dropped ..) rfl, hinv.backed⟩
  | transmit port =>
      obtain ⟨hport, hview | ⟨q, hq, p, rest, hhead, -, hview⟩⟩ := view_transmit hstep
      · rw [hview]
        exact hinv
      · rw [hview]
        exact pfcInv_leave hkind hinv hbooked hport hq hhead
  | pfcReceived port qIndex pause =>
      rw [view_pfcReceived hstep]
      exact hinv
  | takeDown port =>
      obtain ⟨packets, hview, -, hsame⟩ := view_takeDown_of_keepsBooks hbooked hok hstep
      have hrow := sums_congr (View.bytes { s.view with packets := packets })
        s.view.bytes (by
          intro i o q hne
          simp only [View.bytes, hsame (o, q) hne])
      rw [hview]
      refine ⟨hinv.inStep.of_eq rfl rfl, ?_⟩
      rw [View.Backed, hrow.1]
      exact hinv.backed

/-- In a run of a switch that keeps the books of its unit, every queue is paired: its upstream is
paused only while bytes of it are buffered. -/
theorem paired_of_keepsBooks (cfg : NodeConfig) (hkind : cfg.kind = .switch) (as : List Event)
    (s : Node) (h : Run (step cfg) (KeepsBooks cfg) initial as s) (port qIndex : Nat) (hport : port < pCnt)
    (hq : qIndex < qCnt) : Paired s.view (port, qIndex) := by
  have hinv : s.view.Booked cfg ∧ PfcInv s.view (port, qIndex) := by
    apply h.invariant
    · intro s a t hinv hok hstep
      exact ⟨booked_step hinv.1 hok hstep, pfcInv_step hkind hinv.2 hinv.1 hok hstep⟩
    · refine ⟨View.initial_booked cfg, ⟨rfl, rfl⟩, ?_⟩
      intro hp
      cases hp
  exact hinv.2.paired hinv.1 (mem_cells.mpr ⟨hport, hq⟩)

/-- The packet that pauses its upstream and, when it leaves, resumes it. -/
theorem smallSwitch_paired :
    ∃ t, Run (step (smallSwitch .switch)) (KeepsBooks (smallSwitch .switch)) initial
        [.arrive ⟨1, 2, 3, 2500000⟩, .transmit 2] t ∧
      pfcFrames (1, 3) t.log = [true, false] ∧ Paired t.view (1, 3) := by
  obtain ⟨t, hrun, hframes⟩ := exists_run (step (smallSwitch .switch))
    (KeepsBooks (smallSwitch .switch)) (fun t => pfcFrames (1, 3) t.log = [true, false]) initial
    [.arrive ⟨1, 2, 3, 2500000⟩, .transmit 2] (by decide +kernel)
  exact ⟨t, hrun, hframes,
    paired_of_keepsBooks _ rfl _ t hrun 1 3 (by rw [pCnt_eq]; decide) (by decide)⟩

/-- A buffer that is all reserve and headroom of one port. -/
def headroomSwitch : NodeConfig := ⟨.switch, Pool.allHeadroom, .default⟩

/-- After two packets whose sizes add up to a whole counter the upstream is paused, and the counters
say that nothing is buffered: no release resumes it. -/
theorem not_paired :
    ¬ ∀ (cfg : NodeConfig) (as : List Event) (s : Node), cfg.kind = .switch →
      (∀ port, .takeDown port ∉ as) → Run (step cfg) anyEvent initial as s →
        ∀ port < pCnt, ∀ qIndex < qCnt, qIndex ≠ 0 → Paired s.view (port, qIndex) := by
  intro hall
  obtain ⟨s, hrun, hpaused, hzero⟩ := exists_run (step headroomSwitch) anyEvent
    (fun s => s.mmu.paused (1, 3) = true ∧
      s.mmu.ingressBytes (1, 3) + s.mmu.hdrmBytes (1, 3) = 0)
    initial [.arrive ⟨1, 2, 3, 2 ^ 31⟩, .arrive ⟨1, 4, 3, 2 ^ 31⟩] (by decide +kernel)
  have hpaired := hall headroomSwitch _ s rfl (by simp) hrun 1 (by rw [pCnt_eq]; decide) 3
    (by decide) (by decide)
  exact Nat.ne_of_gt (hpaired.counted hpaused) hzero

end Node

end CollectiveSim.Switch
