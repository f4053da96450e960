import Mathlib
import CollectiveSim.Switch.Node

/-!
# The bookkeeping of a switch

What a switch does to its counters, to the received packets it holds and to its log does not depend
on the other members of its devices. The view of a node is this part of it, and each event of the
node is one operation on the view.
-/

namespace CollectiveSim.Switch

open Framework

/-- The counters, the byte matrix, the received packets by port and queue, and the log. -/
structure View where
  mmu : Mmu
  mBytes : Nat × Nat × Nat → Nat
  packets : Nat × Nat → List Packet
  log : List Note

namespace View

def initial : View := ⟨.initial, fun _ => 0, fun _ => [], []⟩

variable (cfg : NodeConfig) (v : View)

/-- Pause the upstream of a queue if the unit says so. -/
def pause (inDev qIndex : Nat) : View :=
  if cfg.kind = .switch ∧ v.mmu.checkShouldPause cfg.mmu inDev qIndex then
    { v with
      mmu := v.mmu.setPause inDev qIndex
      log := v.log ++ [.pfc inDev qIndex true] }
  else v

/-- Resume the upstream of a queue if the unit says so. -/
def resume (inDev qIndex : Nat) : View :=
  if cfg.kind = .switch ∧ v.mmu.checkShouldResume cfg.mmu inDev qIndex then
    { v with
      mmu := v.mmu.setResume inDev qIndex
      log := v.log ++ [.pfc inDev qIndex false] }
  else v

/-- A packet comes in. -/
def arrive (p : Packet) : View := { v with log := v.log ++ [.arrived p.inDev p.qIndex p.size] }

/-- A packet is not admitted. -/
def drop (p : Packet) : View := { v with log := v.log ++ [.dropped p.inDev p.qIndex p.size] }

/-- A packet is admitted by the unit, unless its queue is that of the highest priority. -/
def accept (p : Packet) : View :=
  if p.qIndex = 0 then v
  else
    View.pause cfg { v with mmu := v.mmu.accept cfg.mmu p.inDev p.outDev p.qIndex p.size } p.inDev
      p.qIndex

/-- A packet is counted in the byte matrix and put in its output queue, which may refuse it. -/
def send (p : Packet) (taken : Bool) : View :=
  { v with
    mBytes := Function.update v.mBytes (p.inDev, p.outDev, p.qIndex)
      (u32 (v.mBytes (p.inDev, p.outDev, p.qIndex) + p.size))
    packets :=
      if taken then
        Function.update v.packets (p.outDev, p.qIndex) (v.packets (p.outDev, p.qIndex) ++ [p])
      else v.packets }

/-- A packet leaves its output queue for the wire. -/
def take (port qIndex : Nat) (rest : List Packet) : View :=
  { v with packets := Function.update v.packets (port, qIndex) rest }

/-- The unit releases a packet, unless its queue is that of the highest priority. -/
def release (port qIndex : Nat) (p : Packet) : View :=
  if qIndex = 0 then v
  else
    View.resume cfg
      { v with
        mmu := v.mmu.release cfg.mmu p.inDev port qIndex p.size
        mBytes := Function.update v.mBytes (p.inDev, port, qIndex)
          (sub32 (v.mBytes (p.inDev, port, qIndex)) p.size) }
      p.inDev qIndex

end View

namespace Node

variable {cfg : NodeConfig} {s t : Node}

/-- The bookkeeping of a node. -/
def view (s : Node) : View where
  mmu := s.mmu
  mBytes := s.mBytes
  packets := fun k => (s.devices k.1).queue.packets k.2
  log := s.log

theorem view_setQueue (s : Node) {port : Nat} {queue : EgressQueue}
    (h : queue.packets = (s.devices port).queue.packets) :
    (s.setQueue port queue).view = s.view := by
  have hpackets : (s.setQueue port queue).view.packets = s.view.packets := by
    funext k
    by_cases heq : k.1 = port
    · simp only [view, setQueue, heq, Function.update_self, h]
    · simp only [view, setQueue, Function.update_of_ne heq]
  simp only [view, View.mk.injEq] at hpackets ⊢
  exact ⟨rfl, rfl, hpackets, rfl⟩

theorem view_setQueue_update (s : Node) {port q : Nat} {queue : EgressQueue} {l : List Packet}
    (h : queue.packets = Function.update (s.devices port).queue.packets q l) :
    (s.setQueue port queue).view = s.view.take port q l := by
  have hpackets : (s.setQueue port queue).view.packets = (s.view.take port q l).packets := by
    funext k
    obtain ⟨o, j⟩ := k
    simp only [view, setQueue, View.take]
    by_cases hport : o = port
    · subst hport
      rw [Function.update_self, h]
      by_cases hq : j = q
      · subst hq
        rw [Function.update_self, Function.update_self]
      · rw [Function.update_of_ne hq, Function.update_of_ne (by simp [hq])]
    · rw [Function.update_of_ne hport, Function.update_of_ne (by simp [hport])]
  simp only [view, View.take, View.mk.injEq] at hpackets ⊢
  exact ⟨rfl, rfl, hpackets, rfl⟩

theorem view_sendPfc (cfg : NodeConfig) (s : Node) (port qIndex : Nat) (pause : Bool) :
    (s.sendPfc cfg port qIndex pause).view =
      { s.view with log := s.log ++ [.pfc port qIndex pause] } :=
  view_setQueue _ (EgressQueue.packets_enqueue_pfc ..)

theorem view_checkAndSendPfc (s : Node) (hkind : cfg.kind = .switch) (inDev qIndex : Nat) :
    (s.checkAndSendPfc cfg inDev qIndex).view = s.view.pause cfg inDev qIndex := by
  rw [checkAndSendPfc, View.pause]
  by_cases h : s.mmu.checkShouldPause cfg.mmu inDev qIndex
  · have hsend := view_sendPfc cfg s inDev qIndex true
    rw [if_pos h, if_pos ⟨hkind, h⟩]
    simp only [view, View.mk.injEq] at hsend ⊢
    exact ⟨by rw [hsend.1], hsend.2⟩
  · rw [if_neg h, if_neg fun hboth => h hboth.2]

theorem view_checkAndSendResume (s : Node) (hkind : cfg.kind = .switch) (inDev qIndex : Nat) :
    (s.checkAndSendResume cfg inDev qIndex).view = s.view.resume cfg inDev qIndex := by
  rw [checkAndSendResume, View.resume]
  by_cases h : s.mmu.checkShouldResume cfg.mmu inDev qIndex
  · have hsend := view_sendPfc cfg s inDev qIndex false
    rw [if_pos h, if_pos ⟨hkind, h⟩]
    simp only [view, View.mk.injEq] at hsend ⊢
    exact ⟨by rw [hsend.1], hsend.2⟩
  · rw [if_neg h, if_neg fun hboth => h hboth.2]

theorem view_admitted (s : Node) (p : Packet) :
    (s.admitted cfg p).view = s.view.accept cfg p := by
  rw [admitted, View.accept]
  by_cases hq : p.qIndex = 0
  · rw [if_pos hq, if_pos hq]
  · rw [if_neg hq, if_neg hq]
    split
    next hkind => exact view_checkAndSendPfc _ hkind ..
    next hkind =>
      rw [View.pause, if_neg (by simp [hkind])]
      rfl

/-- The output queue of an admitted packet takes it. -/
def Takes (cfg : NodeConfig) (s : Node) (p : Packet) : Prop :=
  ((s.admitted cfg p).devices p.outDev).queue.Accepts cfg.limits (.received p) p.qIndex

instance (cfg : NodeConfig) (s : Node) (p : Packet) : Decidable (s.Takes cfg p) := by
  unfold Takes
  infer_instance

theorem view_countAndSend (s : Node) (p : Packet) :
    (s.countAndSend cfg p).view =
      s.view.send p
        (decide ((s.devices p.outDev).queue.Accepts cfg.limits (.received p) p.qIndex)) := by
  rw [countAndSend, switchSend, View.send]
  have henq := EgressQueue.packets_enqueue_received cfg.limits
    (s.devices p.outDev).queue p p.qIndex
  by_cases h : (s.devices p.outDev).queue.Accepts cfg.limits (.received p) p.qIndex
  · rw [if_pos h] at henq
    rw [if_pos (decide_eq_true h)]
    exact view_setQueue_update { s with mBytes := _ } henq
  · rw [if_neg h] at henq
    rw [if_neg (by simpa using h)]
    exact view_setQueue { s with mBytes := _ } henq

/-- The record of an arrival. -/
def noted (s : Node) (p : Packet) : Node :=
  { s with log := s.log ++ [.arrived p.inDev p.qIndex p.size] }

theorem admits_noted (s : Node) (p : Packet) : (s.noted p).Admits cfg p ↔ s.Admits cfg p := Iff.rfl

/-- An arrival drops the packet, or admits it and sends it to its queue. -/
theorem view_arrive {p : Packet} (h : step cfg s (.arrive p) = some t) :
    Arrives p ∧
      t.view =
        if s.Admits cfg p then
          ((s.view.arrive p).accept cfg p).send p (decide ((s.noted p).Takes cfg p))
        else (s.view.arrive p).drop p := by
  simp only [step, Option.ite_none_right_eq_some, Option.some.injEq] at h
  obtain ⟨⟨harr, -⟩, rfl⟩ := h
  refine ⟨harr, ?_⟩
  by_cases hadm : s.Admits cfg p
  · rw [if_pos hadm]
    show ((s.noted p).sendToDev cfg p).view = _
    rw [sendToDev, if_pos ((admits_noted s p).mpr hadm), view_countAndSend, view_admitted]
    rfl
  · rw [if_neg hadm]
    show ((s.noted p).sendToDev cfg p).view = _
    rw [sendToDev, if_neg fun hn => hadm ((admits_noted s p).mp hn)]
    rfl

theorem view_switchNotifyDequeue (s : Node) (port qIndex : Nat) (p : Packet) :
    (s.switchNotifyDequeue cfg port qIndex p).view = s.view.release cfg port qIndex p := by
  rw [switchNotifyDequeue, View.release]
  by_cases hq : qIndex = 0
  · rw [if_neg (not_not.mpr hq), if_pos hq]
  · rw [if_pos hq, if_neg hq]
    split
    next hkind => exact view_checkAndSendResume _ hkind ..
    next hkind =>
      rw [View.resume, if_neg (by simp [hkind])]
      rfl

/-- A transmission sends a PFC frame, which the view does not show, or the first received packet of
a queue. -/
theorem view_transmit {port : Nat} (h : step cfg s (.transmit port) = some t) :
    port < pCnt ∧ (t.view = s.view ∨ ∃ q < qCnt, ∃ p rest, s.view.packets (port, q) = p :: rest ∧
      ((s.devices port).queue.queues q).head? = some (.received p) ∧
      t.view = (s.view.take port q rest).release cfg port q p) := by
  simp only [step, Option.ite_none_right_eq_some] at h
  obtain ⟨⟨hport, -⟩, h⟩ := h
  refine ⟨hport, ?_⟩
  rw [dequeueAndTransmit] at h
  split at h
  · cases h
  next q frame queue hdeq =>
    cases frame with
    | pfc qIndex pause =>
        cases h
        exact .inl (view_setQueue s (EgressQueue.packets_dequeueRR_pfc hdeq))
    | received p =>
        cases h
        have hpackets := EgressQueue.packets_dequeueRR_received hdeq
        obtain ⟨hq, frames, hhead, -⟩ := EgressQueue.dequeueRR_eq_some hdeq
        have hrest : queue.packets =
            Function.update (s.devices port).queue.packets q (queue.packets q) := by
          rw [hpackets, Function.update_idem, Function.update_eq_self]
        refine .inr ⟨q, hq, p, queue.packets q, ?_, ?_, ?_⟩
        · show (s.devices port).queue.packets q = _
          rw [hpackets, Function.update_self]
        · rw [hhead, List.head?_cons]
        · rw [view_switchNotifyDequeue, view_setQueue_update s hrest]

theorem view_pfcReceived {port qIndex : Nat} {pause : Bool}
    (h : step cfg s (.pfcReceived port qIndex pause) = some t) : t.view = s.view := by
  simp only [step, Option.ite_none_right_eq_some, Option.some.injEq] at h
  obtain ⟨-, rfl⟩ := h
  have hpackets : ∀ k : Nat × Nat,
      (Function.update s.devices port { s.devices port with
        paused := Function.update (s.devices port).paused qIndex pause } k.1).queue.packets k.2 =
      (s.devices k.1).queue.packets k.2 := by
    intro k
    by_cases heq : k.1 = port
    · rw [heq, Function.update_self]
    · rw [Function.update_of_ne heq]
  simp only [view, hpackets]

/-- Taking a port down loses packets of that port only, and tells nobody. -/
theorem view_takeDown {port : Nat} (h : step cfg s (.takeDown port) = some t) :
    ∃ packets, t.view = { s.view with packets := packets } ∧
      (∀ k : Nat × Nat, k.1 ≠ port → packets k = s.view.packets k) ∧
      ∀ q, packets (port, q) <:+ s.view.packets (port, q) := by
  simp only [step, Option.some.injEq] at h
  subst h
  refine ⟨_, rfl, ?_, ?_⟩
  · intro k hk
    simp only [view, takeDown, Function.update_of_ne hk]
  · intro q
    simp only [view, takeDown, Function.update_self]
    exact EgressQueue.packets_drain _ _ q

end Node

end CollectiveSim.Switch
