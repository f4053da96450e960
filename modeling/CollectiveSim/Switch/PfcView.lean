import CollectiveSim.Switch.Node

/-!
# The PFC frames of a switch

What the events of a switch do to its pause flags, to the PFC frames that wait in its output queues and
to those that it has sent. A frame is sent when a flag turns over.
-/

namespace CollectiveSim.Switch

open Framework

/-- The priority and the type of a PFC frame. -/
def Frame.pfc? : Frame → Option (Nat × Bool)
  | received _ => none
  | pfc qIndex pause => some (qIndex, pause)

/-- The port, the priority and the type of a PFC frame in the log. -/
def Note.sentPfc? : Note → Option (Nat × Nat × Bool)
  | pfc port qIndex pause => some (port, qIndex, pause)
  | _ => none

/-- The pause flags, the PFC frames in each output queue, and those sent, in order. -/
structure PfcView where
  paused : Nat × Nat → Bool
  frames : Nat × Nat → List (Nat × Bool)
  sent : List (Nat × Nat × Bool)

namespace PfcView

variable (v : PfcView)

/-- A frame is sent by a port whose output queue takes it or not. -/
def send (port qIndex : Nat) (pause taken : Bool) : PfcView where
  paused := Function.update v.paused (port, qIndex) pause
  frames :=
    if taken then Function.update v.frames (port, 0) (v.frames (port, 0) ++ [(qIndex, pause)])
    else v.frames
  sent := v.sent ++ [(port, qIndex, pause)]

/-- The frames of an output queue are replaced. -/
def setFrames (k : Nat × Nat) (frames : List (Nat × Bool)) : PfcView :=
  { v with frames := Function.update v.frames k frames }

variable {v} {port qIndex : Nat} {pause taken : Bool}

@[simp] theorem send_paused :
    (v.send port qIndex pause taken).paused = Function.update v.paused (port, qIndex) pause := rfl

@[simp] theorem send_sent :
    (v.send port qIndex pause taken).sent = v.sent ++ [(port, qIndex, pause)] := rfl

@[simp] theorem setFrames_frames (k : Nat × Nat) (frames : List (Nat × Bool)) :
    (v.setFrames k frames).frames = Function.update v.frames k frames := rfl

theorem send_frames_taken : (v.send port qIndex pause true).frames (port, 0) =
    v.frames (port, 0) ++ [(qIndex, pause)] := Function.update_self ..

theorem send_frames_of_ne {k : Nat × Nat} (h : k ≠ (port, 0)) :
    (v.send port qIndex pause taken).frames k = v.frames k := by
  cases taken with
  | true => exact Function.update_of_ne h _ _
  | false => rfl

end PfcView

namespace EgressQueue

/-- The PFC frames in a queue. -/
def pfcFrames (b : EgressQueue) (q : Nat) : List (Nat × Bool) := (b.queues q).filterMap Frame.pfc?

variable {limits : QueueLimits} {b b' : EgressQueue}

theorem pfcFrames_of_queues {q : Nat} {l : List Frame}
    (h : b'.queues = Function.update b.queues q l) :
    b'.pfcFrames = Function.update b.pfcFrames q (l.filterMap Frame.pfc?) := by
  funext j
  rw [pfcFrames, h]
  by_cases heq : j = q
  · rw [heq, Function.update_self, Function.update_self]
  · rw [Function.update_of_ne heq, Function.update_of_ne heq, pfcFrames]

theorem pfcFrames_enqueue_received (p : Packet) (q : Nat) :
    (b.enqueue limits (.received p) q).pfcFrames = b.pfcFrames := by
  rcases enqueue_cases limits b (.received p) q with h | h
  · funext j
    rw [pfcFrames, h, pfcFrames]
  · have hsame : (b.queues q ++ [Frame.received p]).filterMap Frame.pfc? = b.pfcFrames q := by
      rw [List.filterMap_append, pfcFrames]
      exact List.append_nil _
    rw [pfcFrames_of_queues h, hsame, Function.update_eq_self]

theorem pfcFrames_enqueue_pfc (qIndex : Nat) (pause : Bool) (q : Nat) :
    (b.enqueue limits (.pfc qIndex pause) q).pfcFrames =
      if b.Accepts limits (.pfc qIndex pause) q then
        Function.update b.pfcFrames q (b.pfcFrames q ++ [(qIndex, pause)])
      else b.pfcFrames := by
  by_cases h : b.Accepts limits (.pfc qIndex pause) q
  · rw [if_pos h, pfcFrames_of_queues (enqueue_queues h), List.filterMap_append]
    rfl
  · rw [if_neg h]
    funext j
    rw [pfcFrames, enqueue_queues_of_not_accepts h, pfcFrames]

theorem pfcFrames_dequeueRR {paused : Nat → Bool} {q : Nat} {f : Frame}
    (h : b.dequeueRR paused = some (q, f, b')) :
    ∃ rest, b.pfcFrames q = f.pfc?.toList ++ rest ∧
      b'.pfcFrames = Function.update b.pfcFrames q rest := by
  obtain ⟨-, rest, hq, hrest⟩ := dequeueRR_eq_some h
  refine ⟨rest.filterMap Frame.pfc?, ?_, pfcFrames_of_queues hrest⟩
  rw [pfcFrames, hq]
  cases f <;> rfl

end EgressQueue

namespace Node

variable {cfg : NodeConfig} {s t : Node}

def pfcView (s : Node) : PfcView where
  paused := s.mmu.paused
  frames := fun k => (s.devices k.1).queue.pfcFrames k.2
  sent := s.log.filterMap Note.sentPfc?

theorem pfcView_setQueue (s : Node) {port q : Nat} {queue : EgressQueue} {l : List (Nat × Bool)}
    (h : queue.pfcFrames = Function.update (s.devices port).queue.pfcFrames q l) :
    (s.setQueue port queue).pfcView = s.pfcView.setFrames (port, q) l := by
  have hframes : (s.setQueue port queue).pfcView.frames =
      (s.pfcView.setFrames (port, q) l).frames := by
    funext k
    obtain ⟨o, j⟩ := k
    simp only [pfcView, setQueue, PfcView.setFrames]
    by_cases hport : o = port
    · subst hport
      rw [Function.update_self, h]
      by_cases hq : j = q
      · rw [hq, Function.update_self, Function.update_self]
      · rw [Function.update_of_ne hq, Function.update_of_ne (by simp [hq])]
    · rw [Function.update_of_ne hport, Function.update_of_ne (by simp [hport])]
  simp only [pfcView, PfcView.setFrames, PfcView.mk.injEq] at hframes ⊢
  exact ⟨rfl, hframes, rfl⟩

theorem pfcView_setQueue_same (s : Node) {port : Nat} {queue : EgressQueue}
    (h : queue.pfcFrames = (s.devices port).queue.pfcFrames) :
    (s.setQueue port queue).pfcView = s.pfcView := by
  have hsame : queue.pfcFrames = Function.update (s.devices port).queue.pfcFrames 0
      ((s.devices port).queue.pfcFrames 0) := by rw [h, Function.update_eq_self]
  rw [pfcView_setQueue s hsame, PfcView.setFrames]
  have hself : Function.update s.pfcView.frames (port, 0) ((s.devices port).queue.pfcFrames 0) =
      s.pfcView.frames := Function.update_eq_self _ _
  rw [hself]

/-- The output queue of a port takes a PFC frame. -/
def TakesPfc (cfg : NodeConfig) (s : Node) (port qIndex : Nat) (pause : Bool) : Prop :=
  (s.devices port).queue.Accepts cfg.limits (.pfc qIndex pause) 0

instance (port qIndex : Nat) (pause : Bool) : Decidable (s.TakesPfc cfg port qIndex pause) := by
  unfold TakesPfc
  infer_instance

theorem pfcView_sendPfc (cfg : NodeConfig) (s : Node) (port qIndex : Nat) (pause : Bool) :
    (s.sendPfc cfg port qIndex pause).pfcView =
      { s.pfcView.send port qIndex pause (decide (s.TakesPfc cfg port qIndex pause)) with
        paused := s.pfcView.paused } := by
  have hlog : (s.log ++ [Note.pfc port qIndex pause]).filterMap Note.sentPfc? =
      s.pfcView.sent ++ [(port, qIndex, pause)] := by
    rw [List.filterMap_append]
    rfl
  have henq : ((s.devices port).queue.enqueue cfg.limits (.pfc qIndex pause) 0).pfcFrames =
      if s.TakesPfc cfg port qIndex pause then
        Function.update (s.devices port).queue.pfcFrames 0
          ((s.devices port).queue.pfcFrames 0 ++ [(qIndex, pause)])
      else (s.devices port).queue.pfcFrames := EgressQueue.pfcFrames_enqueue_pfc qIndex pause 0
  rw [sendPfc, switchSend]
  by_cases h : s.TakesPfc cfg port qIndex pause
  · rw [if_pos h] at henq
    rw [pfcView_setQueue { s with log := s.log ++ [Note.pfc port qIndex pause] } henq,
      decide_eq_true h, PfcView.setFrames, PfcView.send]
    simp only [pfcView, if_true, PfcView.mk.injEq, true_and]
    exact hlog
  · rw [if_neg h] at henq
    rw [pfcView_setQueue_same { s with log := s.log ++ [Note.pfc port qIndex pause] } henq,
      decide_eq_false h, PfcView.send]
    simp only [pfcView, PfcView.mk.injEq, true_and]
    exact ⟨rfl, hlog⟩

/-- A pause is sent where none is in force, and then it is. -/
theorem pfcView_checkAndSendPfc (cfg : NodeConfig) (s : Node) (inDev qIndex : Nat) :
    (s.checkAndSendPfc cfg inDev qIndex).pfcView = s.pfcView ∨
    (s.pfcView.paused (inDev, qIndex) = false ∧
      (s.checkAndSendPfc cfg inDev qIndex).pfcView = s.pfcView.send inDev qIndex true
        (decide (s.TakesPfc cfg inDev qIndex true))) := by
  rw [checkAndSendPfc]
  by_cases h : s.mmu.checkShouldPause cfg.mmu inDev qIndex
  · right
    have hsend := pfcView_sendPfc cfg s inDev qIndex true
    have hflag : s.mmu.paused (inDev, qIndex) = false := by
      rw [Mmu.checkShouldPause, Bool.and_eq_true, Bool.not_eq_true'] at h
      exact h.1
    rw [if_pos h]
    refine ⟨hflag, ?_⟩
    simp only [pfcView, PfcView.send, PfcView.mk.injEq] at hsend ⊢
    refine ⟨?_, hsend.2⟩
    rw [← hsend.1]
    rfl
  · exact Or.inl (by rw [if_neg h])

theorem pfcView_checkAndSendResume (cfg : NodeConfig) (s : Node) (inDev qIndex : Nat) :
    (s.checkAndSendResume cfg inDev qIndex).pfcView = s.pfcView ∨
    (s.pfcView.paused (inDev, qIndex) = true ∧
      (s.checkAndSendResume cfg inDev qIndex).pfcView = s.pfcView.send inDev qIndex false
        (decide (s.TakesPfc cfg inDev qIndex false))) := by
  rw [checkAndSendResume]
  by_cases h : s.mmu.checkShouldResume cfg.mmu inDev qIndex
  · right
    have hsend := pfcView_sendPfc cfg s inDev qIndex false
    have hflag : s.mmu.paused (inDev, qIndex) = true := by
      rw [Mmu.checkShouldResume, Bool.and_eq_true] at h
      exact h.1
    rw [if_pos h]
    refine ⟨hflag, ?_⟩
    simp only [pfcView, PfcView.send, PfcView.mk.injEq] at hsend ⊢
    refine ⟨?_, hsend.2⟩
    rw [← hsend.1]
    rfl
  · exact Or.inl (by rw [if_neg h])

/-- What one event does to the PFC frames: nothing, or it turns one flag over and sends a frame, whose
queue takes it as it was before the event if it pauses. -/
inductive Turns (cfg : NodeConfig) (s : Node) (v v' : PfcView) : Prop
  | same (h : v' = v)
  | turn (port qIndex : Nat) (pause taken : Bool) (hflag : v.paused (port, qIndex) = !pause)
      (htaken : pause = true → taken = decide (s.TakesPfc cfg port qIndex true))
      (h : v' = v.send port qIndex pause taken)

theorem pfcView_countAndSend (s : Node) (p : Packet) :
    (s.countAndSend cfg p).pfcView = s.pfcView :=
  pfcView_setQueue_same { s with mBytes := _ } (EgressQueue.pfcFrames_enqueue_received p p.qIndex)

theorem turns_admitted (cfg : NodeConfig) (s : Node) (p : Packet) :
    Turns cfg s s.pfcView (s.admitted cfg p).pfcView := by
  rw [admitted]
  by_cases hq : p.qIndex = 0
  · rw [if_pos hq]
    exact .same rfl
  · rw [if_neg hq]
    have hview : ({ s with mmu := s.mmu.accept cfg.mmu p.inDev p.outDev p.qIndex p.size } :
        Node).pfcView = s.pfcView := by
      simp only [pfcView, Mmu.accept_paused]
    cases cfg.kind with
    | nvswitch => exact .same hview
    | switch =>
        rcases pfcView_checkAndSendPfc cfg
          { s with mmu := s.mmu.accept cfg.mmu p.inDev p.outDev p.qIndex p.size } p.inDev p.qIndex
          with h | ⟨hflag, h⟩
        · exact .same (h.trans hview)
        · rw [hview] at hflag h
          exact .turn p.inDev p.qIndex true _ hflag (fun _ => rfl) h

theorem turns_arrive {p : Packet} (h : step cfg s (.arrive p) = some t) :
    Turns cfg s s.pfcView t.pfcView := by
  simp only [step, Option.ite_none_right_eq_some, Option.some.injEq] at h
  obtain ⟨-, rfl⟩ := h
  have hnoted : ({ s with log := s.log ++ [Note.arrived p.inDev p.qIndex p.size] } :
      Node).pfcView = s.pfcView := by
    simp [pfcView, Note.sentPfc?]
  rw [sendToDev]
  split
  · rw [pfcView_countAndSend, ← hnoted]
    rcases turns_admitted cfg
      { s with log := s.log ++ [Note.arrived p.inDev p.qIndex p.size] } p with
      h | ⟨port, qIndex, pause, taken, hflag, htaken, h⟩
    · exact .same h
    · exact .turn port qIndex pause taken hflag htaken h
  · apply Turns.same
    simp [pfcView, Note.sentPfc?, List.filterMap_cons]

theorem turns_switchNotifyDequeue (s s₀ : Node) (port qIndex : Nat) (p : Packet) :
    Turns cfg s₀ s.pfcView (s.switchNotifyDequeue cfg port qIndex p).pfcView := by
  rw [switchNotifyDequeue]
  by_cases hq : qIndex = 0
  · rw [if_neg (not_not.mpr hq)]
    exact .same rfl
  · rw [if_pos hq]
    have hview : ({ s with
        mmu := s.mmu.release cfg.mmu p.inDev port qIndex p.size
        mBytes := Function.update s.mBytes (p.inDev, port, qIndex)
          (sub32 (s.mBytes (p.inDev, port, qIndex)) p.size) } : Node).pfcView = s.pfcView := by
      simp only [pfcView, Mmu.release_paused]
    cases cfg.kind with
    | nvswitch => exact .same hview
    | switch =>
        rcases pfcView_checkAndSendResume cfg { s with
          mmu := s.mmu.release cfg.mmu p.inDev port qIndex p.size
          mBytes := Function.update s.mBytes (p.inDev, port, qIndex)
            (sub32 (s.mBytes (p.inDev, port, qIndex)) p.size) } p.inDev qIndex with h | ⟨hflag, h⟩
        · exact .same (h.trans hview)
        · rw [hview] at hflag h
          exact .turn p.inDev qIndex false _ hflag (fun hpause => nomatch hpause) h

theorem turns_transmit {port : Nat} (h : step cfg s (.transmit port) = some t) :
    ∃ q f queue rest, (s.devices port).queue.dequeueRR (s.devices port).paused = some (q, f, queue) ∧
      s.pfcView.frames (port, q) = f.pfc?.toList ++ rest ∧
      Turns cfg s (s.pfcView.setFrames (port, q) rest) t.pfcView := by
  simp only [step, Option.ite_none_right_eq_some] at h
  obtain ⟨-, h⟩ := h
  rw [dequeueAndTransmit] at h
  split at h
  · cases h
  next q f queue hdeq =>
    obtain ⟨rest, hfront, hrest⟩ := EgressQueue.pfcFrames_dequeueRR hdeq
    have hview := pfcView_setQueue s hrest
    refine ⟨q, f, queue, rest, hdeq, hfront, ?_⟩
    rw [← hview]
    cases f with
    | pfc qIndex pause =>
        cases h
        exact .same rfl
    | received p =>
        cases h
        exact turns_switchNotifyDequeue _ s port q p

theorem pfcView_pfcReceived {port qIndex : Nat} {pause : Bool}
    (h : step cfg s (.pfcReceived port qIndex pause) = some t) : t.pfcView = s.pfcView := by
  simp only [step, Option.ite_none_right_eq_some, Option.some.injEq] at h
  obtain ⟨-, rfl⟩ := h
  have hframes : ∀ k : Nat × Nat,
      (Function.update s.devices port { s.devices port with
        paused := Function.update (s.devices port).paused qIndex pause } k.1).queue.pfcFrames k.2 =
      (s.devices k.1).queue.pfcFrames k.2 := by
    intro k
    by_cases heq : k.1 = port
    · rw [heq, Function.update_self]
    · rw [Function.update_of_ne heq]
  simp only [pfcView, hframes]

theorem pfcView_takeDown {port : Nat} (h : step cfg s (.takeDown port) = some t) :
    t.pfcView.paused = s.pfcView.paused ∧ t.pfcView.sent = s.pfcView.sent ∧
      ∀ k : Nat × Nat, k.1 ≠ port → t.pfcView.frames k = s.pfcView.frames k := by
  simp only [step, Option.some.injEq] at h
  subst h
  refine ⟨rfl, rfl, ?_⟩
  intro k hk
  simp only [pfcView, takeDown, Function.update_of_ne hk]

end Node

end CollectiveSim.Switch
