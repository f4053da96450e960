import Mathlib
import CollectiveSim.Framework.Run
import CollectiveSim.Rdma.Sender

/-!
# The window of the sender

`snd_una` and `snd_nxt` lie in the front message, in this order, unless an acknowledgement overtakes
`snd_nxt` after the queue went back.
-/

namespace CollectiveSim.Rdma.Sender

open Framework

/-- The packet lies in the message, carries its bytes and has its flow id. -/
structure InMessage (m : RdmaMessage) (p : DataPacket) : Prop where
  start : m.startSeq ≤ p.seq
  stop : p.seq + p.payload.length ≤ m.startSeq + m.size
  payload : SliceAt m.bytes (p.seq - m.startSeq) p.payload
  flow : p.mscclFlowId = m.mscclFlowId

/-- The window of a sender with messages, and the packets it has emitted. -/
structure Windowed (c : Sender) : Prop where
  front : ∀ front rest, c.qp.messages = front :: rest → front.startSeq ≤ c.qp.sndUna ∧
    c.qp.sndUna ≤ c.qp.sndNxt ∧ c.qp.sndNxt ≤ front.startSeq + front.size
  onTheFly : c.qp.messages ≠ [] → (c.qp.getOnTheFly : Int) = (c.qp.sndNxt : Int) - c.qp.sndUna
  emitted : ∀ p ∈ c.emitted, ∃ m ∈ c.pushed, InMessage m p

/-- While messages are queued, `seq` is not above `snd_nxt`, or it acknowledges all that was pushed. -/
def NotAhead (c : Sender) (seq : Nat) : Prop :=
  c.qp.messages = [] ∨ seq ≤ c.qp.sndNxt ∨ (c.pushed.map RdmaMessage.size).sum ≤ seq

instance (c : Sender) (seq : Nat) : Decidable (c.NotAhead seq) := by
  unfold NotAhead
  infer_instance

/-- Nothing is acknowledged ahead of `snd_nxt`; a NACK sets `snd_nxt` itself. -/
def Ordered (hw : RdmaHw) (c : Sender) : Event → Prop
  | .push size _ _ => c.PushAligned size.toNat
  | .send _ => True
  | .sent => hw.ackInterval = 0 → ∀ p ∈ c.inTx, c.NotAhead (u32 (u32 p.seq + p.payload.length))
  | .ack a => hw.ackInterval ≠ 0 → a.nack = false → c.NotAhead a.seq

instance (hw : RdmaHw) (c : Sender) : (e : Event) → Decidable (Ordered hw c e)
  | .push size _ _ => inferInstanceAs (Decidable (c.PushAligned size.toNat))
  | .send _ => .isTrue trivial
  | .sent => inferInstanceAs (Decidable (_ = _ → ∀ p ∈ c.inTx, c.NotAhead _))
  | .ack a => inferInstanceAs (Decidable (_ ≠ _ → _ = _ → c.NotAhead a.seq))

/-- The invariant: the window is in order while messages are queued. -/
structure InWindow (c : Sender) : Prop where
  tracked : Tracked c
  ordered : c.qp.messages ≠ [] → c.qp.sndUna ≤ c.qp.sndNxt
  emitted : ∀ p ∈ c.emitted, ∃ m ∈ c.pushed, InMessage m p

namespace InWindow

variable {c c' : Sender} {hw : RdmaHw}

theorem initial (autoClose : Bool) (mscclFlowId : Nat) :
    InWindow (Sender.initial autoClose mscclFlowId) where
  tracked := .initial autoClose mscclFlowId
  ordered := by intro h; exact absurd rfl h
  emitted := by intro p hp; cases hp

theorem windowed (h : InWindow c) : Windowed c where
  front := by
    intro front rest hmessages
    obtain ⟨hstart, hsize, -, -⟩ := h.tracked.front_end hmessages
    have hnxt := h.tracked.sndNxt_front
    rw [← hstart, hsize] at hnxt
    refine ⟨?_, h.ordered (by rw [hmessages]; simp), hnxt⟩
    rw [hstart]
    exact h.tracked.accounted.finished_le
  onTheFly := by
    intro hne
    have hle := h.ordered hne
    have hlt : c.qp.sndNxt < 2 ^ 64 :=
      Nat.lt_of_le_of_lt (Nat.le_trans h.tracked.sndNxt_sent h.tracked.sent_pushed)
        h.tracked.accounted.fits
    rw [RdmaQueuePair.getOnTheFly, toU64]
    omega
  emitted := h.emitted

theorem push (h : InWindow c) (size : Nat) (srcDataPtr : Option (Int → UInt8)) (mscclFlowId : Nat)
    (hok : c.PushAligned size) : InWindow (c.push size srcDataPtr mscclFlowId) where
  tracked := h.tracked.push size srcDataPtr mscclFlowId hok
  ordered := by
    intro _
    by_cases hempty : c.qp.messages = []
    · exact hok.1 hempty
    · exact h.ordered hempty
  emitted := by
    intro p hp
    obtain ⟨m, hm, hin⟩ := h.emitted p hp
    exact ⟨m, List.mem_append_left _ hm, hin⟩

theorem send (h : InWindow c) {win : Nat} (hsend : c.send hw win = some c') : InWindow c' := by
  have htracked := h.tracked.send hsend
  obtain ⟨front, rest, hmessages, -, rfl, hseq, hnxt, hend, hflow, hslice⟩ := h.tracked.send_cases hsend
  obtain ⟨hstart, hordered, -⟩ := h.windowed.front front rest hmessages
  have hfront : front ∈ c.pushed := by
    rw [← h.tracked.accounted.split, hmessages]
    exact List.mem_append_right _ List.mem_cons_self
  refine ⟨htracked, ?_, ?_⟩
  · intro _
    exact Nat.le_trans hordered (Nat.le_trans (Nat.le_add_right _ _) (Nat.le_of_eq hnxt.symm))
  · intro p hp
    rcases List.mem_append.mp hp with hp | hp
    · exact h.emitted p hp
    · rw [List.mem_singleton.mp hp]
      refine ⟨front, hfront, ?_, ?_, ?_, hflow⟩
      · rw [hseq]
        exact Nat.le_trans hstart hordered
      · rwa [hseq]
      · rw [hseq]
        exact hslice (Nat.le_trans hstart hordered)

theorem sndUna_lt (h : Tracked c) {sndUna : Nat} {rest fired : List RdmaMessage}
    (hloop : RdmaQueuePair.completeMessages sndUna c.qp.messages = (fired, rest)) (hrest : rest ≠ []) :
    sndUna < (stream c.pushed).length := by
  cases rest with
  | nil => exact absurd rfl hrest
  | cons front rest =>
      have hlt := RdmaQueuePair.completeMessages_front hloop rfl
      have hsplit := RdmaQueuePair.completeMessages_append sndUna c.qp.messages
      rw [hloop] at hsplit
      have hpushed : c.pushed = c.finished ++ fired ++ front :: rest := by
        rw [← h.accounted.split, ← hsplit, List.append_assoc]
      have hlayout := h.accounted.contiguous
      have hfits := h.accounted.fits
      rw [hpushed] at hlayout hfits ⊢
      have hstart := hlayout.startSeq_eq
      simp only [stream_append, stream_cons, List.length_append, RdmaMessage.bytes_length] at *
      rw [u64_of_lt (by omega)] at hlt
      omega

theorem acknowledge (h : InWindow c) {seq : Nat} (hseq : c.NotAhead seq) {qp : RdmaQueuePair}
    {fired : List RdmaMessage} (hack : c.qp.Acknowledged qp seq fired) (hne : qp.messages ≠ []) :
    qp.sndUna ≤ qp.sndNxt := by
  rcases hack with ⟨-, -, hsame⟩ | ⟨huna, hnxt, hloop, -⟩
  · rw [hsame] at hne ⊢
    exact h.ordered hne
  · have hlt := sndUna_lt h.tracked hloop hne
    have hqueue : c.qp.messages ≠ [] := by
      intro hempty
      rw [hempty, RdmaQueuePair.completeMessages] at hloop
      exact hne (congrArg Prod.snd hloop).symm
    have hordered := h.ordered hqueue
    rw [stream_length] at hlt
    rcases hseq with hempty | hle | hall
    · exact absurd hempty hqueue
    · omega
    · omega

theorem sent (h : InWindow c) (hok : Ordered hw c .sent) (hsent : c.sent hw = some c') :
    InWindow c' := by
  have htracked := h.tracked.sent hsent
  obtain ⟨p, htx, rfl⟩ := Option.map_eq_some_iff.mp hsent
  refine ⟨htracked, ?_, h.emitted⟩
  by_cases hinterval : hw.ackInterval = 0
  · exact h.acknowledge (hok hinterval p htx)
      (RdmaQueuePair.sendPacketComplete_acknowledged hinterval p)
  · simp only [RdmaQueuePair.sendPacketComplete_of_ackInterval hinterval]
    exact h.ordered

theorem ack (h : InWindow c) (hb : hw.backto0 = false) {a : AckPacket} (hok : Ordered hw c (.ack a))
    (hack : c.ack hw a = some c') : InWindow c' := by
  have htracked := h.tracked.ack hack
  obtain ⟨fired, qp, hseq, hrecv, rfl⟩ := Tracked.ack_cases hack
  refine ⟨htracked, ?_, h.emitted⟩
  cases hnack : a.nack with
  | true =>
      rcases RdmaQueuePair.receiveAck_nack hnack hrecv with hsame | hback
      · rw [hsame]
        exact h.ordered
      · intro _
        exact Nat.le_of_eq hback.symm
  | false =>
      by_cases hinterval : hw.ackInterval = 0
      · obtain ⟨-, hsame | ⟨htrue, -⟩⟩ := RdmaQueuePair.receiveAck_of_noAck hinterval hrecv
        · rw [hsame]
          exact h.ordered
        · rw [hnack] at htrue
          cases htrue
      · have hacknowledged := RdmaQueuePair.receiveAck_acknowledged hinterval hnack hrecv
        rw [RdmaQueuePair.acknowledgedSeq, hb, if_neg Bool.false_ne_true] at hacknowledged
        exact h.acknowledge (hok hinterval hnack) hacknowledged

theorem step (hb : hw.backto0 = false) (c : Sender) (e : Event) (c' : Sender) (h : InWindow c)
    (hok : Ordered hw c e) (hstep : c.step hw e = some c') : InWindow c' := by
  cases e with
  | push size srcDataPtr mscclFlowId =>
      cases hstep
      exact h.push _ _ _ hok
  | send win => exact h.send hstep
  | sent => exact h.sent hok hstep
  | ack a => exact h.ack hb hok hstep

end InWindow

/-- In every run in which nothing is acknowledged ahead of `snd_nxt`, the window is in order and every
packet is part of one message. -/
theorem run_windowed (hw : RdmaHw) (hb : hw.backto0 = false) (autoClose : Bool) (mscclFlowId : Nat)
    (es : List Event) (c : Sender)
    (hrun : Run (step hw) (Ordered hw) (initial autoClose mscclFlowId) es c) : Windowed c :=
  (hrun.invariant (InWindow.step hb) (InWindow.initial autoClose mscclFlowId)).windowed

/-- One byte per packet, every byte acknowledged. -/
def byteAckHw : RdmaHw := ⟨1, 1, 1, false, 10⟩

/-- Two of three bytes are sent, the queue goes back, and one byte is sent again. -/
def goBackOnce : List Event :=
  [.push 3 (some fun _ => 5) 1, .send 0, .sent, .send 0, .sent, .ack ⟨true, 0⟩, .send 0, .ack ⟨false, 1⟩]

theorem goBackOnce_windowed :
    ∃ c, byteAckHw.backto0 = false ∧
      Run (step byteAckHw) (Ordered byteAckHw) (initial false 0) goBackOnce c ∧
      (c.qp.sndUna = 1 ∧ c.qp.sndNxt = 1 ∧ c.emitted.length = 3) ∧ Windowed c := by
  obtain ⟨c, hrun, hc⟩ := exists_run (step byteAckHw) (Ordered byteAckHw)
    (fun c => c.qp.sndUna = 1 ∧ c.qp.sndNxt = 1 ∧ c.emitted.length = 3)
    (initial false 0) goBackOnce (by decide +kernel)
  exact ⟨c, rfl, hrun, hc, run_windowed byteAckHw rfl false 0 goBackOnce c hrun⟩

/-- After going back to the start the acknowledgement of both sent bytes arrives. -/
theorem not_windowed :
    ¬ ∀ (hw : RdmaHw), hw.backto0 = false → ∀ (autoClose : Bool) (mscclFlowId : Nat) (es : List Event)
      (c : Sender), Run (step hw) anyEvent (initial autoClose mscclFlowId) es c → Windowed c := by
  intro hall
  obtain ⟨c, hrun, hone, huna, hnxt⟩ := exists_run (step byteAckHw) anyEvent
    (fun c => c.qp.messages.length = 1 ∧ c.qp.sndUna = 2 ∧ c.qp.sndNxt = 0) (initial false 0)
    [.push 3 (some fun _ => 5) 1, .send 0, .sent, .send 0, .sent, .ack ⟨true, 0⟩, .ack ⟨false, 2⟩]
    (by decide +kernel)
  obtain ⟨front, hfront⟩ := List.length_eq_one_iff.mp hone
  obtain ⟨-, hle, -⟩ := (hall byteAckHw rfl false 0 _ c hrun).front front [] hfront
  omega

end CollectiveSim.Rdma.Sender
