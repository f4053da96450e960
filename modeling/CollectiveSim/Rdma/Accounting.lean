import Mathlib
import CollectiveSim.Rdma.Stream

/-!
# Accounting of the messages of a queue pair

Finished and queued messages together are the pushed ones, and a message is finished only below
`snd_una`. Pushing and completing keep this in every mode of operation.
-/

namespace CollectiveSim.Rdma

open Framework

/-- On an open queue pair the ACK is processed first; going back afterwards only moves `snd_nxt`. -/
theorem RdmaQueuePair.receiveAck_cases {hw : RdmaHw} {a : AckPacket} {qp qp' : RdmaQueuePair}
    {fired : List RdmaMessage} (h : qp.receiveAck hw a = some (fired, qp')) :
    (fired = [] ∧ qp' = qp) ∨
      ∃ qp₁, qp.ackMessages hw a = some (fired, qp₁) ∧ qp'.messages = qp₁.messages ∧
        qp'.sndUna = qp₁.sndUna := by
  unfold receiveAck at h
  split at h
  · cases h
    exact .inl ⟨rfl, rfl⟩
  · simp only [Option.map_eq_some_iff, Prod.exists, Prod.mk.injEq] at h
    obtain ⟨fired₁, qp₁, hack, rfl, rfl⟩ := h
    refine .inr ⟨qp₁, hack, ?_, ?_⟩
    · split <;> rfl
    · split <;> rfl

structure Accounted (pushed finished messages : List RdmaMessage) (sndUna : Nat) : Prop where
  split : finished ++ messages = pushed
  contiguous : Contiguous 0 pushed
  fits : (stream pushed).length < 2 ^ 64
  finished_le : (stream finished).length ≤ sndUna

namespace Accounted

variable {pushed finished messages : List RdmaMessage} {sndUna : Nat} {qp : RdmaQueuePair}
  {hw : RdmaHw}

theorem finished_prefix (h : Accounted pushed finished messages sndUna) : finished <+: pushed :=
  ⟨messages, h.split⟩

theorem stream_finished_le (h : Accounted pushed finished messages sndUna) :
    (stream finished).length ≤ (stream pushed).length := by
  rw [← h.split]
  simp

theorem stream_finished_eq (h : Accounted pushed finished messages sndUna) :
    stream finished = (stream pushed).take (stream finished).length := by
  rw [← h.split, stream_append, List.take_left']
  rfl

theorem front_start {front : RdmaMessage} {rest : List RdmaMessage}
    (h : Accounted pushed finished (front :: rest) sndUna) :
    front.startSeq = (stream finished).length := by
  have hlayout := h.contiguous
  rw [← h.split] at hlayout
  simpa using hlayout.startSeq_eq

theorem front_end {front : RdmaMessage} {rest : List RdmaMessage}
    (h : Accounted pushed finished (front :: rest) sndUna) :
    front.startSeq + front.size ≤ (stream pushed).length := by
  rw [h.front_start, ← h.split]
  simp

theorem front_sliceAt {front : RdmaMessage} {rest : List RdmaMessage}
    (h : Accounted pushed finished (front :: rest) sndUna) :
    SliceAt (stream pushed) front.startSeq front.bytes := by
  have hlayout := h.contiguous
  rw [← h.split] at hlayout ⊢
  exact hlayout.sliceAt

theorem empty_le (h : Accounted pushed finished [] sndUna) : (stream pushed).length ≤ sndUna := by
  have := h.finished_le
  rw [← h.split]
  simpa using this

theorem mono {sndUna' : Nat} (h : Accounted pushed finished messages sndUna)
    (hle : sndUna ≤ sndUna') : Accounted pushed finished messages sndUna' :=
  { h with finished_le := Nat.le_trans h.finished_le hle }

theorem complete (h : Accounted pushed finished messages sndUna) :
    Accounted pushed (finished ++ (RdmaQueuePair.completeMessages sndUna messages).1)
      (RdmaQueuePair.completeMessages sndUna messages).2 sndUna where
  split := by
    rw [List.append_assoc, RdmaQueuePair.completeMessages_append, h.split]
  contiguous := h.contiguous
  fits := h.fits
  finished_le := by
    have hlayout := h.contiguous
    have hfits := h.fits
    rw [← h.split] at hlayout hfits
    exact RdmaQueuePair.completeMessages_le sndUna finished messages hlayout hfits h.finished_le

theorem push (h : Accounted pushed finished qp.messages qp.sndUna) (size : Nat)
    (srcDataPtr : Option (Int → UInt8)) (mscclFlowId : Nat)
    (hempty : qp.messages = [] → qp.sndNxt = (stream pushed).length)
    (hfits : (stream pushed).length + size < 2 ^ 64) :
    Accounted (pushed ++ [⟨size, qp.nextStartSeq, srcDataPtr, mscclFlowId⟩]) finished
      (qp.pushMessage size srcDataPtr mscclFlowId).messages qp.sndUna where
  split := by
    simp only [RdmaQueuePair.pushMessage]
    rw [← List.append_assoc, h.split]
  contiguous := by
    have hlayout := h.contiguous
    have hlt := h.fits
    rw [← h.split] at hlayout hlt
    have hempty' : qp.messages = [] → qp.sndNxt = (stream finished).length := by
      intro hnil
      rw [hempty hnil, ← h.split, hnil, List.append_nil]
    have hnext := RdmaQueuePair.nextStartSeq_eq hlayout hlt hempty'
    rw [h.split] at hnext
    rw [contiguous_append]
    exact ⟨h.contiguous, by simpa using hnext, trivial⟩
  fits := by simpa using hfits
  finished_le := h.finished_le

theorem finishMessages (h : Accounted pushed finished qp.messages qp.sndUna) :
    Accounted pushed (finished ++ qp.finishMessages.1) qp.finishMessages.2.messages
      qp.finishMessages.2.sndUna :=
  h.complete

theorem sendPacketComplete (h : Accounted pushed finished qp.messages qp.sndUna) (p : DataPacket) :
    Accounted pushed (finished ++ (qp.sendPacketComplete hw p).1)
      (qp.sendPacketComplete hw p).2.messages (qp.sendPacketComplete hw p).2.sndUna := by
  unfold RdmaQueuePair.sendPacketComplete
  split
  · simpa using h
  · split
    · have hack : Accounted pushed finished
          (qp.acknowledge (u32 (u32 p.seq + p.payload.length))).messages
          (qp.acknowledge (u32 (u32 p.seq + p.payload.length))).sndUna := by
        simpa using h.mono (Nat.le_max_left _ _)
      simpa using hack.finishMessages
    · simpa using h

theorem ackMessages {a : AckPacket} {fired : List RdmaMessage} {qp' : RdmaQueuePair}
    (h : Accounted pushed finished qp.messages qp.sndUna)
    (hack : qp.ackMessages hw a = some (fired, qp')) :
    Accounted pushed (finished ++ fired) qp'.messages qp'.sndUna := by
  unfold RdmaQueuePair.ackMessages at hack
  split at hack
  · cases hack
    simpa using h
  · split at hack
    · cases hack
    · cases hack
      have hcomplete := (h.mono (Nat.le_max_left qp.sndUna
        (if hw.backto0 then a.seq / hw.chunk.toNat * hw.chunk.toNat else a.seq))).complete
      simpa [RdmaQueuePair.finishMessages] using hcomplete

theorem receiveAck {a : AckPacket} {fired : List RdmaMessage} {qp' : RdmaQueuePair}
    (h : Accounted pushed finished qp.messages qp.sndUna)
    (hrecv : qp.receiveAck hw a = some (fired, qp')) :
    Accounted pushed (finished ++ fired) qp'.messages qp'.sndUna := by
  obtain ⟨rfl, rfl⟩ | ⟨qp₁, hack, hmessages, hsndUna⟩ := RdmaQueuePair.receiveAck_cases hrecv
  · simpa using h
  · rw [hmessages, hsndUna]
    exact h.ackMessages hack

end Accounted

namespace RdmaQueuePair

@[simp] theorem sendPacketComplete_sndNxt (hw : RdmaHw) (p : DataPacket) (qp : RdmaQueuePair) :
    (qp.sendPacketComplete hw p).2.sndNxt = qp.sndNxt := by
  unfold sendPacketComplete
  split
  · rfl
  · split
    · simp [finishMessages]
    · rfl

theorem sendPacketComplete_of_ackInterval {hw : RdmaHw} (h : hw.ackInterval ≠ 0) (p : DataPacket)
    (qp : RdmaQueuePair) : qp.sendPacketComplete hw p = ([], qp) := by
  unfold sendPacketComplete
  split
  · rfl
  · rfl

theorem sendPacketComplete_sndUna_le (hw : RdmaHw) (p : DataPacket) (qp : RdmaQueuePair) :
    (qp.sendPacketComplete hw p).2.sndUna ≤ max qp.sndUna (p.seq + p.payload.length) := by
  unfold sendPacketComplete
  split
  · exact Nat.le_max_left _ _
  · split
    · have h₁ := u32_le (u32 p.seq + p.payload.length)
      have h₂ := u32_le p.seq
      simp only [autoComplete_sndUna, finishMessages, acknowledge_sndUna]
      omega
    · exact Nat.le_max_left _ _

theorem receiveAck_sndUna_le {hw : RdmaHw} {a : AckPacket} {qp qp' : RdmaQueuePair}
    {fired : List RdmaMessage} (h : qp.receiveAck hw a = some (fired, qp')) :
    qp'.sndUna ≤ max qp.sndUna a.seq := by
  obtain ⟨-, rfl⟩ | ⟨qp₁, hack, -, hsndUna⟩ := receiveAck_cases h
  · exact Nat.le_max_left _ _
  · rw [hsndUna]
    unfold ackMessages at hack
    split at hack
    · cases hack
      exact Nat.le_max_left _ _
    · split at hack
      · cases hack
      · cases hack
        have hround := Nat.div_mul_le_self a.seq hw.chunk.toNat
        simp only [autoComplete_sndUna, acknowledge_sndUna]
        split <;> omega

theorem completeMessages_front {sndUna : Nat} {messages fired left rest : List RdmaMessage}
    {front : RdmaMessage} (h : completeMessages sndUna messages = (fired, left))
    (hleft : left = front :: rest) : sndUna < u64 (front.startSeq + front.size) := by
  induction messages generalizing fired with
  | nil =>
      rw [hleft] at h
      cases h
  | cons m ms ih =>
      rw [completeMessages] at h
      by_cases hdone : u64 (m.startSeq + m.size) ≤ sndUna
      · rw [if_pos hdone] at h
        cases hms : completeMessages sndUna ms with
        | mk others left' =>
            rw [hms] at h
            cases h
            exact ih hms
      · rw [if_neg hdone, hleft] at h
        cases h
        exact Nat.not_le.mp hdone

theorem completeMessages_head_le (sndUna : Nat) (finished messages : List RdmaMessage) :
    (stream finished).length + (messages.head?.map RdmaMessage.size).getD 0 ≤
      (stream (finished ++ (completeMessages sndUna messages).1)).length +
        ((completeMessages sndUna messages).2.head?.map RdmaMessage.size).getD 0 := by
  cases messages with
  | nil => simp [completeMessages]
  | cons front rest =>
      unfold completeMessages
      split
      · simp only [List.head?_cons, Option.map_some, Option.getD_some, stream_append, stream_cons,
          List.length_append, RdmaMessage.bytes_length]
        omega
      · simp

end RdmaQueuePair

end CollectiveSim.Rdma
