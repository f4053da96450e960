import Mathlib
import CollectiveSim.Framework.Run
import CollectiveSim.Rdma.NetDevice

/-!
# A device that waits has set its timer

When a queue pair that may send becomes available later, `m_nextSend` has to be pending by then. It
is set, if at all, where `DequeueAndTransmit` finds nothing to send.
-/

namespace CollectiveSim.Rdma

open Framework

namespace Nic

variable (cfg : NicConfig)

/-- The queue pair may send but is not available yet. -/
def Waits (nic : Nic) (qp : NicQp) : Prop := nic.eligible cfg qp = true ∧ nic.now < qp.nextAvail

/-- `m_nextSend` is pending no later than this. -/
def WakesBy (nic : Nic) (t : Int) : Prop := ∃ ts, nic.nextSend = some ts ∧ ts ≤ t

/-- A device that is READY with its link up wakes by the time that each waiting queue pair is
available. -/
def NoStall (nic : Nic) : Prop :=
  nic.linkUp = true → nic.tx = none → ∀ qp ∈ nic.qps, nic.Waits cfg qp → nic.WakesBy qp.nextAvail

/-- What `DequeueAndTransmit` needs where it finds nothing to send although a queue pair waits. A
pending `m_nextSend` stays as it is. Otherwise it is set to the smallest `m_nextAvail`, if that is in
the future: a single resident queue pair with an old one prevents it, also one without bytes. -/
def Covers (nic : Nic) : Prop :=
  nic.linkUp = true → nic.tx = none → (nic.getNextQindex cfg).1 = .nothing →
    ∀ qp ∈ (nic.getNextQindex cfg).2, nic.Waits cfg qp →
      match nic.nextSend with
      | some ts => ts ≤ qp.nextAvail
      | none => nic.now < minNextAvail (nic.getNextQindex cfg).2 ∧
          minNextAvail (nic.getNextQindex cfg).2 < maximumSimulationTime

/-- The events that keep the device from stalling: where `DequeueAndTransmit` is called it sets its
timer, and a rate timer opens no window of a queue pair that the device would not wake for. -/
def Keeps (nic : Nic) : NicEvent → Prop
  | .rateTimer i rate =>
      nic.linkUp = true → nic.tx = none → ∀ qp, nic.qps[i]? = some qp →
        ¬ nic.Waits cfg qp → nic.Waits cfg { qp with rate := rate } → nic.WakesBy qp.nextAvail
  | e => ∀ nic', nic.handle cfg e = some (true, nic') → nic'.Covers cfg

variable {cfg} {nic nic' : Nic}

theorem minNextAvail_le {qps : List NicQp} {qp : NicQp} (h : qp ∈ qps) :
    minNextAvail qps ≤ qp.nextAvail := by
  have hfold (t : Int) : qps.foldl (fun t qp => min qp.nextAvail t) t ≤ t ∧
      ∀ qp ∈ qps, qps.foldl (fun t qp => min qp.nextAvail t) t ≤ qp.nextAvail := by
    clear h
    induction qps generalizing t with
    | nil => simp
    | cons qp' qps ih =>
        obtain ⟨hle, hall⟩ := ih (min qp'.nextAvail t)
        simp only [List.foldl_cons, List.forall_mem_cons]
        exact ⟨by omega, by omega, hall⟩
  exact (hfold maximumSimulationTime).2 qp h

theorem noStall_of_tx {tx : Transmission} (h : nic.tx = some tx) : nic.NoStall cfg := by
  intro _ hready
  rw [h] at hready
  cases hready

theorem noStall_dequeueAndTransmit (h : nic.dequeueAndTransmit cfg = some nic') :
    nic'.NoStall cfg ↔ nic.Covers cfg := by
  rw [dequeueAndTransmit] at h
  by_cases hup : nic.linkUp = true
  · rw [if_neg (by simp [hup])] at h
    cases hready : nic.tx with
    | some tx =>
        rw [if_pos (by simp [hready])] at h
        cases h
        exact iff_of_true (noStall_of_tx hready) fun _ hnone => by simp [hready] at hnone
    | none =>
        rw [if_neg (by simp [hready])] at h
        obtain ⟨qIndex, qps, hnext⟩ : ∃ qIndex qps, nic.getNextQindex cfg = (qIndex, qps) :=
          ⟨_, _, rfl⟩
        simp only [hnext] at h
        cases qIndex with
        | highPrio =>
            have hcovers : nic.Covers cfg := fun _ _ hnothing => by simp [hnext] at hnothing
            cases hack : nic.ackQ with
            | nil => simp [hack] at h
            | cons size rest =>
                simp only [hack, Option.some_inj] at h
                cases h
                exact iff_of_true (noStall_of_tx rfl) hcovers
        | qp i =>
            have hcovers : nic.Covers cfg := fun _ _ hnothing => by simp [hnext] at hnothing
            obtain ⟨qp, -, hsent⟩ := Option.map_eq_some_iff.mp h
            cases hsent
            exact iff_of_true (noStall_of_tx rfl) hcovers
        | nothing =>
            simp only at h
            rw [NoStall, Covers, hnext]
            cases hsend : nic.nextSend with
            | some ts =>
                rw [if_neg (by simp [hsend])] at h
                cases h
                constructor
                · intro hstall _ _ _ qp hqp hwaits
                  obtain ⟨ts', hts', hle⟩ := hstall hup hready qp hqp hwaits
                  cases hsend.symm.trans hts'
                  exact hle
                · intro hcovers _ _ qp hqp hwaits
                  exact ⟨ts, hsend, hcovers hup hready rfl qp hqp hwaits⟩
            | none =>
                by_cases hset : minNextAvail qps < maximumSimulationTime ∧
                    minNextAvail qps > nic.now
                · rw [if_pos ⟨hsend, hset⟩] at h
                  cases h
                  constructor
                  · intro _ _ _ _ _ _ _
                    exact ⟨hset.2, hset.1⟩
                  · intro _ _ _ qp hqp _
                    exact ⟨minNextAvail qps, rfl, minNextAvail_le hqp⟩
                · rw [if_neg fun hboth => hset hboth.2] at h
                  cases h
                  constructor
                  · intro hstall _ _ _ qp hqp hwaits
                    obtain ⟨ts, hts, -⟩ := hstall hup hready qp hqp hwaits
                    cases hsend.symm.trans hts
                  · intro hcovers _ _ qp hqp hwaits
                    obtain ⟨hnow, hmax⟩ := hcovers hup hready rfl qp hqp hwaits
                    exact absurd ⟨hmax, hnow⟩ hset
  · rw [if_pos (by simp [hup])] at h
    cases h
    exact iff_of_true (fun hup' => absurd hup' hup) fun hup' => absurd hup' hup

theorem keeps_iff_covers {e : NicEvent} (h : nic.handle cfg e = some (true, nic')) :
    nic.Keeps cfg e ↔ nic'.Covers cfg := by
  have hother : (∀ mid, nic.handle cfg e = some (true, mid) → mid.Covers cfg) ↔ nic'.Covers cfg := by
    simp [h]
  cases e with
  | rateTimer i rate =>
      obtain ⟨qp, -, hqp⟩ := Option.map_eq_some_iff.mp h
      cases hqp
  | _ => exact hother

theorem noStall_handle (hstall : nic.NoStall cfg) {e : NicEvent}
    (h : nic.handle cfg e = some (false, nic')) : nic'.NoStall cfg ↔ nic.Keeps cfg e := by
  have hother : ∀ mid, nic.handle cfg e = some (true, mid) → mid.Covers cfg := by
    intro mid hmid
    rw [h] at hmid
    cases hmid
  cases e with
  | advance t =>
      refine iff_of_true ?_ hother
      simp only [handle, Option.ite_none_right_eq_some, Option.some_inj] at h
      obtain ⟨⟨hnow, -⟩, heq⟩ := h
      cases heq
      intro hup hready qp hqp hwaits
      exact hstall hup hready qp hqp ⟨hwaits.1, Int.lt_of_le_of_lt hnow hwaits.2⟩
  | receiveAck i a rate =>
      refine iff_of_true ?_ hother
      obtain ⟨qp, -, hqp⟩ := Option.bind_eq_some_iff.mp h
      by_cases hclosed : qp.closed = true
      · rw [if_pos hclosed] at hqp
        cases hqp
        exact hstall
      · rw [if_neg hclosed] at hqp
        obtain ⟨mid, -, hmid⟩ := Option.map_eq_some_iff.mp hqp
        cases hmid
  | rateTimer i rate =>
      obtain ⟨qp, hget, hqp⟩ := Option.map_eq_some_iff.mp h
      cases hqp
      constructor
      · intro hstall' hup hready qp' hget' _ hwaits
        cases hget.symm.trans hget'
        obtain ⟨hlt, -⟩ := List.getElem?_eq_some_iff.mp hget
        exact hstall' hup hready { qp with rate := rate } (List.mem_set hlt _) hwaits
      · intro hkeeps hup hready qp' hqp' hwaits
        rcases List.mem_or_eq_of_mem_set hqp' with hmem | rfl
        · exact hstall hup hready qp' hmem hwaits
        · by_cases hbefore : nic.Waits cfg qp
          · exact hstall hup hready qp (List.mem_of_getElem? hget) hbefore
          · exact hkeeps hup hready qp hget hbefore hwaits
  | closeQueuePair i =>
      refine iff_of_true ?_ hother
      obtain ⟨qp, -, hqp⟩ := Option.map_eq_some_iff.mp h
      cases hqp
      intro hup hready qp' hqp' hwaits
      rcases List.mem_or_eq_of_mem_set hqp' with hmem | rfl
      · exact hstall hup hready qp' hmem hwaits
      · exact absurd hwaits.1 (by simp [eligible, NicQp.complete, RdmaQueuePair.getBytesLeft])
  | pause qIndex =>
      refine iff_of_true ?_ hother
      cases h
      intro hup hready qp hqp hwaits
      refine hstall hup hready qp hqp ⟨?_, hwaits.2⟩
      have helig := hwaits.1
      simp only [eligible, Bool.and_eq_true, Bool.not_eq_true', Function.update_apply] at helig ⊢
      obtain ⟨⟨hpaused, hbytes⟩, hwin⟩ := helig
      split at hpaused
      · cases hpaused
      · exact ⟨⟨hpaused, hbytes⟩, hwin⟩
  | sendCallback =>
      refine iff_of_true ?_ hother
      simp only [handle] at h
      split at h
      · split at h
        · obtain ⟨qp, -, hqp⟩ := Option.map_eq_some_iff.mp h
          cases hqp
          exact noStall_of_tx rfl
        · cases h
      · cases h
  | takeDown =>
      refine iff_of_true ?_ hother
      cases h
      intro hup
      cases hup
  | addQueuePair pg win lastPktSize mscclFlowId autoClose message => cases h
  | send i size srcDataPtr mscclFlowId =>
      obtain ⟨qp, -, hqp⟩ := Option.map_eq_some_iff.mp h
      cases hqp
  | reply size => cases h
  | resume qIndex => simp [handle] at h
  | transmitComplete =>
      simp only [handle] at h
      split at h
      · simp at h
      · cases h
  | nextSend => simp [handle] at h

/-- One event keeps the device from stalling exactly under its condition. -/
theorem noStall_step_iff (hstall : nic.NoStall cfg) {e : NicEvent}
    (h : nic.step cfg e = some nic') : nic'.NoStall cfg ↔ nic.Keeps cfg e := by
  obtain ⟨⟨transmits, mid⟩, hhandle, hrest⟩ := Option.bind_eq_some_iff.mp h
  cases transmits with
  | true => rw [keeps_iff_covers hhandle, noStall_dequeueAndTransmit hrest]
  | false =>
      cases hrest
      exact noStall_handle hstall hhandle

theorem noStall_initial : initial.NoStall cfg := by
  intro _ _ qp hqp
  cases hqp

/-- The device does not stall in any state of a run if and only if every event of the run meets its
condition. -/
theorem noStall_iff (cfg : NicConfig) {es : List NicEvent} {nic : Nic}
    (hrun : Run (step cfg) anyEvent initial es nic) :
    (∀ before after mid, es = before ++ after → Run (step cfg) anyEvent initial before mid →
      mid.NoStall cfg) ↔ Run (step cfg) (Keeps cfg) initial es nic :=
  Run.guarded_iff (fun _ hstall => hstall)
    (fun _ _ _ hstall hkeeps hstep => (noStall_step_iff hstall hstep).mpr hkeeps)
    (fun _ _ _ hstall hnot hstep hstall' => hnot ((noStall_step_iff hstall hstep).mp hstall'))
    hrun noStall_initial

/-- A byte takes a nanosecond on this link. -/
def hostConfig : NicConfig where
  hw := ⟨1000, 1, 4000, false, 500⟩
  varWin := false
  rateBound := true
  dataRate := 8 * 10 ^ 9
  interframeGap := 0
  headerSize := 100

/-- The second of two persistent queue pairs sends four packets, the first one is idle. While the
second packet leaves, an ACK with a congestion notification halves the rate. -/
def slowedBesideIdle : List NicEvent :=
  [.addQueuePair 3 0 0 0 false none, .addQueuePair 3 0 0 0 false none, .send 1 4000 none 0,
    .advance 1100, .sendCallback, .transmitComplete,
    .advance 1200, .receiveAck 1 ⟨false, 1000⟩ (.assign (4 * 10 ^ 9)),
    .advance 2200, .sendCallback, .transmitComplete,
    .advance 3300, .sendCallback, .transmitComplete]

/-- The device is READY without a timer, and a queue pair waits. -/
def asleep (cfg : NicConfig) (nic : Nic) : Bool :=
  nic.linkUp && nic.tx.isNone && nic.nextSend.isNone &&
    nic.qps.any fun qp => nic.eligible cfg qp && decide (nic.now < qp.nextAvail)

theorem slowedBesideIdle_stalls : ∃ nic, Run (step hostConfig) anyEvent initial slowedBesideIdle nic ∧
    ¬ nic.NoStall hostConfig := by
  have heval : ((execGuarded (step hostConfig) anyEvent initial slowedBesideIdle).any fun nic =>
      decide (nic.asleep hostConfig = true)) = true := by
    decide +kernel
  obtain ⟨nic, hrun, hasleep⟩ := exists_run (step hostConfig) anyEvent
    (fun nic => nic.asleep hostConfig = true) initial slowedBesideIdle heval
  simp only [asleep, Bool.and_eq_true, Option.isNone_iff_eq_none, List.any_eq_true,
    decide_eq_true_eq] at hasleep
  obtain ⟨⟨⟨hup, hready⟩, hnone⟩, qp, hqp, hwaits⟩ := hasleep
  refine ⟨nic, hrun, fun hstall => ?_⟩
  obtain ⟨ts, hts, -⟩ := hstall hup hready qp hqp hwaits
  rw [hnone] at hts
  cases hts

theorem not_noStall : ¬ ∀ cfg es nic, Run (step cfg) anyEvent initial es nic → nic.NoStall cfg := by
  intro h
  obtain ⟨nic, hrun, hstalls⟩ := slowedBesideIdle_stalls
  exact hstalls (h _ _ _ hrun)

/-- The same without the idle queue pair. -/
def slowedAlone : List NicEvent :=
  [.addQueuePair 3 0 0 0 false none, .send 0 4000 none 0,
    .advance 1100, .sendCallback, .transmitComplete,
    .advance 1200, .receiveAck 0 ⟨false, 1000⟩ (.assign (4 * 10 ^ 9)),
    .advance 2200, .sendCallback, .transmitComplete,
    .advance 3300, .sendCallback, .transmitComplete]

instance (nic : Nic) (qp : NicQp) : Decidable (nic.Waits cfg qp) :=
  inferInstanceAs (Decidable (_ ∧ _))

instance (nic : Nic) (t : Int) : Decidable (nic.WakesBy t) :=
  inferInstanceAs (Decidable (∃ ts ∈ nic.nextSend, ts ≤ t))

instance (nic : Nic) : Decidable (nic.NoStall cfg) :=
  inferInstanceAs (Decidable (nic.linkUp = true → nic.tx = none → _))

theorem keeps_of_noStall {es : List NicEvent} (hstall : nic.NoStall cfg)
    (h : Run (step cfg) (fun nic e => ∀ nic' ∈ nic.step cfg e, nic'.NoStall cfg) nic es nic') :
    Run (step cfg) (Keeps cfg) nic es nic' := by
  induction h with
  | nil nic => exact .nil nic
  | cons hok hstep _ ih =>
      have hnext := hok _ hstep
      exact .cons ((noStall_step_iff hstall hstep).mp hnext) hstep (ih hnext)

theorem slowedBesideIdle_breaks :
    (∃ nic, Run (step hostConfig) anyEvent initial slowedBesideIdle nic ∧
      ¬ Run (step hostConfig) (Keeps hostConfig) initial slowedBesideIdle nic) ∧
    ∃ nic, Run (step hostConfig) (Keeps hostConfig) initial slowedAlone nic ∧
      (∃ qp ∈ nic.qps, nic.Waits hostConfig qp) ∧ nic.NoStall hostConfig := by
  constructor
  · obtain ⟨nic, hrun, hstalls⟩ := slowedBesideIdle_stalls
    refine ⟨nic, hrun, fun hkept => hstalls ?_⟩
    exact (noStall_iff hostConfig hrun).mpr hkept slowedBesideIdle [] nic (by simp) hrun
  · obtain ⟨nic, hrun, hwaits⟩ := exists_run (step hostConfig)
      (fun nic e => ∀ nic' ∈ nic.step hostConfig e, nic'.NoStall hostConfig)
      (fun nic => ∃ qp ∈ nic.qps, nic.Waits hostConfig qp) initial slowedAlone (by decide +kernel)
    have hkept := keeps_of_noStall noStall_initial hrun
    refine ⟨nic, hkept, hwaits, ?_⟩
    exact (noStall_iff hostConfig hrun.any).mpr hkept slowedAlone [] nic (by simp) hrun.any

end Nic

end CollectiveSim.Rdma
