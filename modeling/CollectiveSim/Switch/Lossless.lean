import Mathlib
import CollectiveSim.Switch.View

/-!
# Why a paused port does not overflow

A queue whose upstream is not paused holds no headroom bytes: the packet that first spills into the
headroom pauses the upstream. From then on the headroom fills with what arrives before the resume.
-/

open scoped BigOperators

namespace CollectiveSim.Switch

open Framework

namespace Note

/-- The bytes an entry of the log brings to a port and queue. -/
def bytesOf (k : Nat × Nat) : Note → Nat
  | arrived port qIndex size => if (port, qIndex) = k then size else 0
  | _ => 0

end Note

/-- The bytes that arrive on a port for a queue in a stretch of the log. -/
def arrivedBytes (k : Nat × Nat) (log : List Note) : Nat := (log.map (Note.bytesOf k)).sum

theorem arrivedBytes_append (k : Nat × Nat) (l l' : List Note) :
    arrivedBytes k (l ++ l') = arrivedBytes k l + arrivedBytes k l' := by
  rw [arrivedBytes, List.map_append, List.sum_append]
  rfl

theorem arrivedBytes_singleton (k : Nat × Nat) (a : Note) : arrivedBytes k [a] = a.bytesOf k := by
  rw [arrivedBytes, List.map_singleton, List.sum_singleton]

/-- At most `R port` bytes arrive on a port for a queue between a pause and the next resume. -/
def BoundedWindows (R : Nat → Nat) (log : List Note) : Prop :=
  ∀ port qIndex pre mid post, log = pre ++ Note.pfc port qIndex true :: (mid ++ post) →
    Note.pfc port qIndex false ∉ mid → arrivedBytes (port, qIndex) mid ≤ R port

theorem BoundedWindows.of_prefix {R : Nat → Nat} {l log : List Note} (hpre : l <+: log)
    (h : BoundedWindows R log) : BoundedWindows R l := by
  obtain ⟨l', rfl⟩ := hpre
  intro port qIndex pre mid post heq hmid
  refine h port qIndex pre mid (post ++ l') ?_ hmid
  rw [heq, List.append_assoc, List.cons_append, List.append_assoc]

theorem boundedWindows_of_total {R : Nat → Nat} {log : List Note}
    (h : ∀ k, arrivedBytes k log ≤ R k.1) : BoundedWindows R log := by
  intro port qIndex pre mid post heq _
  refine Nat.le_trans ?_ (h (port, qIndex))
  rw [heq, arrivedBytes_append, ← List.singleton_append, arrivedBytes_append, arrivedBytes_append]
  omega

namespace Mmu

variable {cfg : MmuConfig} {m : Mmu}

theorem accept_hdrmBytes_le (cfg : MmuConfig) (m : Mmu) (inDev outDev qIndex psize : Nat) :
    (m.accept cfg inDev outDev qIndex psize).hdrmBytes (inDev, qIndex) ≤
      m.hdrmBytes (inDev, qIndex) + psize := by
  rw [accept, updateEgressAdmission_hdrmBytes, updateIngressAdmission_hdrmBytes]
  split
  · rw [Function.update_self]
    exact u32_le _
  · exact Nat.le_add_right _ _

theorem accept_hdrmBytes_of_ne (m : Mmu) (inDev outDev qIndex psize : Nat) {k : Nat × Nat}
    (h : k ≠ (inDev, qIndex)) :
    (m.accept cfg inDev outDev qIndex psize).hdrmBytes k = m.hdrmBytes k := by
  rw [accept, updateEgressAdmission_hdrmBytes, updateIngressAdmission_hdrmBytes]
  split
  · exact Function.update_of_ne h _ _
  · rfl

theorem release_hdrmBytes_le (m : Mmu) (inDev outDev qIndex psize : Nat) {k : Nat × Nat}
    (h : m.hdrmBytes k < 2 ^ 32) :
    (m.release cfg inDev outDev qIndex psize).hdrmBytes k ≤ m.hdrmBytes k := by
  by_cases heq : k = (inDev, qIndex)
  · subst heq
    simp only [release, removeFromEgressAdmission, removeFromIngressAdmission,
      Function.update_self]
    have hle : m.fromHdrm inDev qIndex psize ≤ m.hdrmBytes (inDev, qIndex) := Nat.min_le_left _ _
    rw [sub32_of_le hle h]
    exact Nat.sub_le _ _
  · simp only [release, removeFromEgressAdmission, removeFromIngressAdmission,
      Function.update_of_ne heq]
    exact Nat.le_refl _

end Mmu

namespace View

variable {cfg : NodeConfig} {v : View} {maxSize : Nat}

/-- The headroom in use of a paused queue is at most one packet and what arrived since the pause. -/
def Covered (maxSize : Nat) (v : View) (k : Nat × Nat) : Prop :=
  ∃ pre mid, v.log = pre ++ Note.pfc k.1 k.2 true :: mid ∧ Note.pfc k.1 k.2 false ∉ mid ∧
    v.mmu.hdrmBytes k ≤ maxSize + arrivedBytes k mid

/-- What is known of one queue: no headroom is in use, or the upstream is paused. -/
def Held (maxSize : Nat) (v : View) (k : Nat × Nat) : Prop :=
  if v.mmu.paused k = true then Covered maxSize v k else v.mmu.hdrmBytes k = 0

/-- A longer log without a resume of the queue covers what the new entries bring. -/
theorem Covered.append {v' : View} {k : Nat × Nat} (h : Covered maxSize v k) (notes : List Note)
    (hlog : v'.log = v.log ++ notes) (hresume : Note.pfc k.1 k.2 false ∉ notes)
    (hle : v'.mmu.hdrmBytes k ≤ v.mmu.hdrmBytes k + arrivedBytes k notes) :
    Covered maxSize v' k := by
  obtain ⟨pre, mid, heq, hmid, hbytes⟩ := h
  refine ⟨pre, mid ++ notes, ?_, ?_, ?_⟩
  · rw [hlog, heq, List.append_assoc, List.cons_append]
  · intro hmem
    rcases List.mem_append.mp hmem with hmem | hmem
    · exact hmid hmem
    · exact hresume hmem
  · rw [arrivedBytes_append]
    omega

theorem Held.append {v' : View} {k : Nat × Nat} (h : Held maxSize v k) (notes : List Note)
    (hlog : v'.log = v.log ++ notes) (hresume : Note.pfc k.1 k.2 false ∉ notes)
    (hpaused : v'.mmu.paused k = v.mmu.paused k)
    (hle : v'.mmu.hdrmBytes k ≤ v.mmu.hdrmBytes k) : Held maxSize v' k := by
  rw [Held] at h ⊢
  rw [hpaused]
  by_cases hp : v.mmu.paused k = true
  · rw [if_pos hp] at h ⊢
    exact h.append notes hlog hresume (Nat.le_trans hle (Nat.le_add_right _ _))
  · rw [if_neg hp] at h ⊢
    omega

theorem held_pause (hkind : cfg.kind = .switch) {inDev qIndex : Nat}
    (h : if v.mmu.paused (inDev, qIndex) = true then Covered maxSize v (inDev, qIndex)
      else v.mmu.hdrmBytes (inDev, qIndex) ≤ maxSize) :
    Held maxSize (v.pause cfg inDev qIndex) (inDev, qIndex) := by
  rw [pause]
  by_cases hpause : v.mmu.checkShouldPause cfg.mmu inDev qIndex = true
  · have hp : v.mmu.paused (inDev, qIndex) = false := by
      simp only [Mmu.checkShouldPause, Bool.and_eq_true, Bool.not_eq_true'] at hpause
      exact hpause.1
    rw [if_neg (by simp [hp])] at h
    rw [if_pos ⟨hkind, hpause⟩, Held]
    simp only [Mmu.setPause, Function.update_self, if_true]
    refine ⟨v.log, [], rfl, List.not_mem_nil, ?_⟩
    exact Nat.le_trans h (Nat.le_add_right _ _)
  · rw [if_neg fun hboth => hpause hboth.2, Held]
    by_cases hp : v.mmu.paused (inDev, qIndex) = true
    · rw [if_pos hp] at h ⊢
      exact h
    · rw [if_neg hp]
      simp only [Mmu.checkShouldPause, hp] at hpause
      simp at hpause
      exact hpause.1

theorem pause_of_ne (cfg : NodeConfig) (v : View) {inDev qIndex : Nat} {k : Nat × Nat}
    (hne : k ≠ (inDev, qIndex)) :
    ∃ notes, (v.pause cfg inDev qIndex).log = v.log ++ notes ∧
      Note.pfc k.1 k.2 false ∉ notes ∧ (v.pause cfg inDev qIndex).mmu.paused k = v.mmu.paused k ∧
      (v.pause cfg inDev qIndex).mmu.hdrmBytes = v.mmu.hdrmBytes := by
  rw [pause]
  split
  · exact ⟨_, rfl, by simp, Function.update_of_ne hne _ _, rfl⟩
  · exact ⟨[], (List.append_nil _).symm, List.not_mem_nil, rfl, rfl⟩

@[simp] theorem pause_hdrmBytes (inDev qIndex : Nat) :
    (v.pause cfg inDev qIndex).mmu.hdrmBytes = v.mmu.hdrmBytes := by
  rw [pause]
  split <;> rfl

@[simp] theorem resume_hdrmBytes (inDev qIndex : Nat) :
    (v.resume cfg inDev qIndex).mmu.hdrmBytes = v.mmu.hdrmBytes := by
  rw [resume]
  split <;> rfl

theorem dropped_mem_pause {inDev qIndex port q size : Nat} :
    Note.dropped port q size ∈ (v.pause cfg inDev qIndex).log ↔ .dropped port q size ∈ v.log := by
  rw [pause]
  split <;> simp

theorem dropped_mem_resume {inDev qIndex port q size : Nat} :
    Note.dropped port q size ∈ (v.resume cfg inDev qIndex).log ↔ .dropped port q size ∈ v.log := by
  rw [resume]
  split <;> simp

theorem log_pause {w : View} (h : w.log = v.log) (inDev qIndex : Nat) :
    v.log <+: (w.pause cfg inDev qIndex).log := by
  rw [pause, ← h]
  split
  · exact List.prefix_append _ _
  · exact List.prefix_rfl

theorem log_resume {w : View} (h : w.log = v.log) (inDev qIndex : Nat) :
    v.log <+: (w.resume cfg inDev qIndex).log := by
  rw [resume, ← h]
  split
  · exact List.prefix_append _ _
  · exact List.prefix_rfl

theorem log_accept (v : View) (p : Packet) : v.log <+: (v.accept cfg p).log := by
  rw [accept]
  split
  · exact List.prefix_rfl
  · refine log_pause ?_ _ _
    rfl

theorem log_release (v : View) (port qIndex : Nat) (p : Packet) :
    v.log <+: (v.release cfg port qIndex p).log := by
  rw [release]
  split
  · exact List.prefix_rfl
  · refine log_resume ?_ _ _
    rfl

theorem held_resume (hkind : cfg.kind = .switch) {inDev qIndex : Nat} {k : Nat × Nat}
    (h : Held maxSize v k) : Held maxSize (v.resume cfg inDev qIndex) k := by
  rw [resume]
  by_cases hresume : v.mmu.checkShouldResume cfg.mmu inDev qIndex = true
  · rw [if_pos ⟨hkind, hresume⟩]
    by_cases heq : k = (inDev, qIndex)
    · subst heq
      have hzero : v.mmu.hdrmBytes (inDev, qIndex) = 0 := by
        simp only [Mmu.checkShouldResume, Bool.and_eq_true, beq_iff_eq] at hresume
        exact hresume.2.1
      rw [Held]
      simp only [Mmu.setResume, Function.update_self]
      exact hzero
    · refine h.append [.pfc inDev qIndex false] rfl ?_ ?_ (Nat.le_refl _)
      · intro hmem
        rw [List.mem_singleton, Note.pfc.injEq] at hmem
        exact heq (Prod.ext hmem.1 hmem.2.1)
      · exact Function.update_of_ne heq _ _
  · rw [if_neg fun hboth => hresume hboth.2]
    exact h

end View

namespace Node

variable {cfg : NodeConfig} {R : Nat → Nat} {maxSize : Nat}

/-- The packets of the run have at most the largest size, and the port they come in by has headroom
for one of them and for what arrives before a resume. -/
def Provisioned (cfg : NodeConfig) (R : Nat → Nat) (maxSize : Nat) (_s : Node) : Event → Prop
  | .arrive p =>
      p.qIndex ≠ 0 → p.size ≤ maxSize ∧ R p.inDev + maxSize ≤ cfg.mmu.headroom p.inDev
  | _ => True

/-- Nothing has been dropped, every queue is held, and no headroom counter can wrap. -/
structure LosslessInv (cfg : NodeConfig) (maxSize : Nat) (v : View) : Prop where
  held : ∀ k ∈ cells, v.Held maxSize k
  hdrm_lt : ∀ k ∈ cells, v.mmu.hdrmBytes k < 2 ^ 32
  kept : ∀ port qIndex size, Note.dropped port qIndex size ∉ v.log

theorem initial_lossless : LosslessInv cfg maxSize View.initial where
  held k _ := by
    rw [View.Held, if_neg (by simp [View.initial, Mmu.initial])]
    rfl
  hdrm_lt _ _ := Nat.two_pow_pos 32
  kept _ _ _ := List.not_mem_nil

/-- A packet that arrives in a bounded window fits in the headroom. -/
theorem hdrm_add_le {v : View} {p : Packet} (hinv : LosslessInv cfg maxSize v)
    (hcell : (p.inDev, p.qIndex) ∈ cells) (hsize : p.size ≤ maxSize)
    (hroom : R p.inDev + maxSize ≤ cfg.mmu.headroom p.inDev)
    (hwin : BoundedWindows R (v.arrive p).log) :
    v.mmu.hdrmBytes (p.inDev, p.qIndex) + p.size ≤ cfg.mmu.headroom p.inDev := by
  have hheld := hinv.held _ hcell
  rw [View.Held] at hheld
  by_cases hp : v.mmu.paused (p.inDev, p.qIndex) = true
  · rw [if_pos hp] at hheld
    obtain ⟨pre, mid, hlog, hmid, hbytes⟩ := hheld
    have harrived := hwin p.inDev p.qIndex pre
      (mid ++ [.arrived p.inDev p.qIndex p.size]) [] (by simp [View.arrive, hlog])
      (by simp [hmid])
    rw [arrivedBytes_append, arrivedBytes_singleton, Note.bytesOf, if_pos rfl] at harrived
    omega
  · rw [if_neg hp] at hheld
    omega

theorem check_of_fits {v : View} {p : Packet}
    (h : v.mmu.hdrmBytes (p.inDev, p.qIndex) + p.size ≤ cfg.mmu.headroom p.inDev) :
    v.mmu.checkIngressAdmission cfg.mmu p.inDev p.qIndex p.size = true := by
  have hword := u32_of_lt (Nat.lt_of_le_of_lt h (cfg.mmu.headroom_lt p.inDev))
  rw [Nat.add_comm] at hword h
  simp [Mmu.checkIngressAdmission, hword, Nat.not_lt.mpr h]

theorem lossless_arrive {v : View} (hinv : LosslessInv cfg maxSize v) (p : Packet) :
    LosslessInv cfg maxSize (v.arrive p) where
  held k hk := (hinv.held k hk).append [.arrived p.inDev p.qIndex p.size] rfl
    (by simp) rfl (Nat.le_refl _)
  hdrm_lt := hinv.hdrm_lt
  kept port qIndex size := by
    simp only [View.arrive, List.mem_append, List.mem_singleton, reduceCtorEq, or_false]
    exact hinv.kept port qIndex size

theorem lossless_accept (hkind : cfg.kind = .switch) {v : View} {p : Packet}
    (hinv : LosslessInv cfg maxSize v) (hsize : p.qIndex ≠ 0 → p.size ≤ maxSize)
    (hfits : p.qIndex ≠ 0 →
      v.mmu.hdrmBytes (p.inDev, p.qIndex) + p.size ≤ cfg.mmu.headroom p.inDev) :
    LosslessInv cfg maxSize ((v.arrive p).accept cfg p) := by
  rw [View.accept]
  by_cases hq : p.qIndex = 0
  · rw [if_pos hq]
    exact lossless_arrive hinv p
  · rw [if_neg hq]
    have hle := Mmu.accept_hdrmBytes_le cfg.mmu v.mmu p.inDev p.outDev p.qIndex p.size
    have hne : ∀ {k : Nat × Nat}, k ≠ (p.inDev, p.qIndex) →
        (v.mmu.accept cfg.mmu p.inDev p.outDev p.qIndex p.size).hdrmBytes k = v.mmu.hdrmBytes k :=
      Mmu.accept_hdrmBytes_of_ne v.mmu p.inDev p.outDev p.qIndex p.size
    constructor
    · intro k hk
      have hheld := hinv.held k hk
      by_cases heq : k = (p.inDev, p.qIndex)
      · subst heq
        apply View.held_pause hkind
        rw [View.Held] at hheld
        show if (v.mmu.accept cfg.mmu p.inDev p.outDev p.qIndex p.size).paused _ = true then _ else _
        rw [Mmu.accept_paused]
        by_cases hp : v.mmu.paused (p.inDev, p.qIndex) = true
        · rw [if_pos hp] at hheld ⊢
          refine hheld.append [.arrived p.inDev p.qIndex p.size] rfl (by simp) ?_
          rw [arrivedBytes_singleton, Note.bytesOf, if_pos rfl]
          exact hle
        · rw [if_neg hp] at hheld ⊢
          exact Nat.le_trans hle (by rw [hheld, Nat.zero_add]; exact hsize hq)
      · obtain ⟨notes, hlog, hresume, hpaused, hhdrm⟩ := View.pause_of_ne cfg
          { v.arrive p with
            mmu := v.mmu.accept cfg.mmu p.inDev p.outDev p.qIndex p.size } heq
        refine hheld.append ([.arrived p.inDev p.qIndex p.size] ++ notes) ?_ ?_ ?_ ?_
        · rw [← List.append_assoc]
          exact hlog
        · simpa using hresume
        · refine hpaused.trans ?_
          show (v.mmu.accept cfg.mmu p.inDev p.outDev p.qIndex p.size).paused k = _
          rw [Mmu.accept_paused]
        · refine Nat.le_of_eq ((congrFun hhdrm k).trans (hne heq))
    · intro k hk
      rw [View.pause_hdrmBytes]
      by_cases heq : k = (p.inDev, p.qIndex)
      · subst heq
        exact Nat.lt_of_le_of_lt (Nat.le_trans hle (hfits hq)) (cfg.mmu.headroom_lt p.inDev)
      · exact lt_of_eq_of_lt (hne heq) (hinv.hdrm_lt k hk)
    · intro port qIndex size hmem
      have hold := View.dropped_mem_pause.mp hmem
      exact (lossless_arrive hinv p).kept port qIndex size hold

theorem lossless_of_eq {v v' : View} (hinv : LosslessInv cfg maxSize v) (hmmu : v'.mmu = v.mmu)
    (hlog : v'.log = v.log) : LosslessInv cfg maxSize v' where
  held k hk := (hinv.held k hk).append [] (by rw [hlog, List.append_nil])
    List.not_mem_nil (by rw [hmmu]) (by rw [hmmu])
  hdrm_lt k hk := by
    rw [hmmu]
    exact hinv.hdrm_lt k hk
  kept := by
    rw [hlog]
    exact hinv.kept

theorem lossless_release (hkind : cfg.kind = .switch) {v : View} {p : Packet} {port q : Nat}
    (hinv : LosslessInv cfg maxSize v) : LosslessInv cfg maxSize (v.release cfg port q p) := by
  rw [View.release]
  by_cases hq : q = 0
  · rw [if_pos hq]
    exact hinv
  · rw [if_neg hq]
    have hle : ∀ k ∈ cells, (v.mmu.release cfg.mmu p.inDev port q p.size).hdrmBytes k ≤
        v.mmu.hdrmBytes k := fun k hk =>
      Mmu.release_hdrmBytes_le v.mmu p.inDev port q p.size (hinv.hdrm_lt k hk)
    constructor
    · intro k hk
      apply View.held_resume hkind
      exact (hinv.held k hk).append [] (List.append_nil _).symm List.not_mem_nil rfl
        (hle k hk)
    · intro k hk
      rw [View.resume_hdrmBytes]
      exact Nat.lt_of_le_of_lt (hle k hk) (hinv.hdrm_lt k hk)
    · intro port' qIndex size hmem
      have hold := View.dropped_mem_resume.mp hmem
      exact hinv.kept port' qIndex size hold

/-- Each event keeps the queues held, as long as the windows are bounded. -/
theorem lossless_step (hkind : cfg.kind = .switch) {s t : Node} {a : Event}
    (hinv : BoundedWindows R s.log → LosslessInv cfg maxSize s.view)
    (hok : Provisioned cfg R maxSize s a) (hstep : step cfg s a = some t)
    (hwin : BoundedWindows R t.log) : LosslessInv cfg maxSize t.view := by
  cases a with
  | arrive p =>
      obtain ⟨⟨hcell, -⟩, hview⟩ := view_arrive hstep
      by_cases hadm : s.Admits cfg p
      · rw [if_pos hadm] at hview
        have hlog : t.log = ((s.view.arrive p).accept cfg p).log := congrArg View.log hview
        rw [hlog] at hwin
        have hwin' := hwin.of_prefix (View.log_accept _ p)
        have hs := hinv (hwin'.of_prefix (List.prefix_append _ _))
        rw [hview]
        refine lossless_of_eq (lossless_accept hkind hs (fun hq => (hok hq).1) ?_) rfl rfl
        intro hq
        exact hdrm_add_le hs hcell (hok hq).1 (hok hq).2 hwin'
      · -- a packet is refused only when it does not fit
        rw [if_neg hadm] at hview
        have hlog : t.log = ((s.view.arrive p).drop p).log := congrArg View.log hview
        rw [hlog] at hwin
        have hwin' := hwin.of_prefix (List.prefix_append _ _)
        have hs := hinv (hwin'.of_prefix (List.prefix_append _ _))
        have hq : p.qIndex ≠ 0 := fun hq => hadm (.inl hq)
        have hfits := hdrm_add_le hs hcell (hok hq).1 (hok hq).2 hwin'
        exact absurd (.inr ⟨check_of_fits hfits, rfl⟩) hadm
  | transmit port =>
      obtain ⟨-, hview | ⟨q, -, p, rest, -, -, hview⟩⟩ := view_transmit hstep
      · have hlog : t.log = s.log := congrArg View.log hview
        rw [hlog] at hwin
        rw [hview]
        exact hinv hwin
      · have hlog : t.log = ((s.view.take port q rest).release cfg port q p).log :=
          congrArg View.log hview
        rw [hlog] at hwin
        have hs := hinv (hwin.of_prefix (View.log_release (s.view.take port q rest) port q p))
        rw [hview]
        exact lossless_release hkind (lossless_of_eq hs rfl rfl)
  | pfcReceived port qIndex pause =>
      have hview := view_pfcReceived hstep
      have hlog : t.log = s.log := congrArg View.log hview
      rw [hlog] at hwin
      rw [hview]
      exact hinv hwin
  | takeDown port =>
      obtain ⟨packets, hview, -, -⟩ := view_takeDown hstep
      have hlog : t.log = s.log := congrArg View.log hview
      rw [hlog] at hwin
      rw [hview]
      exact lossless_of_eq (hinv hwin) rfl rfl

/-- A switch whose headroom covers the bytes in flight after a pause drops nothing. -/
theorem not_dropped (cfg : NodeConfig) (hkind : cfg.kind = .switch) (R : Nat → Nat) (maxSize : Nat)
    (as : List Event) (s : Node) (h : Run (step cfg) (Provisioned cfg R maxSize) initial as s)
    (hwin : BoundedWindows R s.log) (port qIndex size : Nat) :
    Note.dropped port qIndex size ∉ s.log := by
  have hinv : BoundedWindows R s.log → LosslessInv cfg maxSize s.view :=
    h.invariant
      (fun _ _ _ hinv hok hstep => lossless_step hkind hinv hok hstep)
      (fun _ => initial_lossless)
  exact (hinv hwin).kept port qIndex size

/-- A switch whose only port with traffic has no shared pool and room for 1500 bytes after a
pause. -/
def noShared : NodeConfig where
  kind := .switch
  mmu :=
    { bufferSize := 6596
      pfcAShift := fun _ => 3
      reserve := 4096
      headroom := fun _ => 2500
      resumeOffset := 3072
      totalHdrm := 2500
      totalRsrv := 4096
      bufferSize_lt := by decide
      reserve_lt := fourKilobytes_lt
      headroom_lt := fun _ => by decide
      totalHdrm_lt := by decide
      totalRsrv_lt := fourKilobytes_lt }
  limits := .default

/-- The first packet pauses the upstream, and the second still finds room. -/
theorem noShared_not_dropped :
    ∃ t, Run (step noShared) (Provisioned noShared (fun _ => 1500) 1000) initial
        [.arrive ⟨1, 2, 3, 1000⟩, .arrive ⟨1, 2, 3, 500⟩] t ∧
      t.log = [.arrived 1 3 1000, .pfc 1 3 true, .arrived 1 3 500] ∧
      Note.dropped 1 3 500 ∉ t.log := by
  obtain ⟨t, hrun, hlog⟩ := exists_run (step noShared) anyEvent
    (fun t => t.log = [.arrived 1 3 1000, .pfc 1 3 true, .arrived 1 3 500]) initial
    [.arrive ⟨1, 2, 3, 1000⟩, .arrive ⟨1, 2, 3, 500⟩] (by decide +kernel)
  have hprov : Run (step noShared) (Provisioned noShared (fun _ => 1500) 1000) initial
      [.arrive ⟨1, 2, 3, 1000⟩, .arrive ⟨1, 2, 3, 500⟩] t := by
    cases hrun with
    | cons _ hfirst hrest =>
      cases hrest with
      | cons _ hsecond hnil =>
        cases hnil
        exact .cons (fun _ => by decide) hfirst (.cons (fun _ => by decide) hsecond (.nil t))
  have hwin : BoundedWindows (fun _ => 1500) t.log := by
    apply boundedWindows_of_total
    intro k
    rw [hlog]
    simp only [arrivedBytes, List.map_cons, List.map_nil, Note.bytesOf, List.sum_cons,
      List.sum_nil]
    split <;> omega
  exact ⟨t, hprov, hlog, not_dropped noShared rfl (fun _ => 1500) 1000 _ t hprov hwin 1 3 500⟩

end Node

end CollectiveSim.Switch
