import Mathlib
import CollectiveSim.Rdma.Accounting

/-!
# The sending end against any network

One queue pair with the packets it has emitted. Acknowledgements come from outside and carry any
sequence number up to the bytes ever sent.
-/

namespace CollectiveSim.Rdma

open Framework

/-- The queue pair, the packet in transmission, the highest sequence number that `snd_nxt` has reached,
and what has been observed: messages pushed and finished, packets emitted and transmitted. -/
structure Sender where
  qp : RdmaQueuePair
  inTx : Option DataPacket
  sentBytes : Nat
  pushed : List RdmaMessage
  finished : List RdmaMessage
  emitted : List DataPacket
  transmitted : List DataPacket

namespace Sender

inductive Event
  /-- `PushMessage` -/
  | push (size : UInt64) (srcDataPtr : Option (Int → UInt8)) (mscclFlowId : UInt32)
  /-- `GetNxtPacket`, with the value of `GetWin` -/
  | send (win : Nat)
  /-- `SendPacketComplete` -/
  | sent
  /-- `ReceiveAck` -/
  | ack (a : AckPacket)

def initial (autoClose : Bool) (mscclFlowId : Nat) : Sender where
  qp := ⟨[], 0, 0, mscclFlowId, autoClose, false⟩
  inTx := none
  sentBytes := 0
  pushed := []
  finished := []
  emitted := []
  transmitted := []

def push (c : Sender) (size : Nat) (srcDataPtr : Option (Int → UInt8)) (mscclFlowId : Nat) : Sender :=
  { c with
    qp := c.qp.pushMessage size srcDataPtr mscclFlowId
    pushed := c.pushed ++ [⟨size, c.qp.nextStartSeq, srcDataPtr, mscclFlowId⟩] }

/-- A queue pair is selected only with bytes left and an open window. -/
def send (hw : RdmaHw) (win : Nat) (c : Sender) : Option Sender :=
  if c.inTx = none ∧ 0 < c.qp.getBytesLeft ∧ c.qp.isWinBound win = false then
    let (p, qp) := c.qp.getNxtPacket hw
    some { c with
      inTx := some p
      qp := qp
      sentBytes := max c.sentBytes qp.sndNxt
      emitted := c.emitted ++ [p] }
  else none

def sent (hw : RdmaHw) (c : Sender) : Option Sender :=
  c.inTx.map fun p =>
    let (fired, qp) := c.qp.sendPacketComplete hw p
    { c with
      inTx := none
      qp := qp
      finished := c.finished ++ fired
      transmitted := c.transmitted ++ [p] }

def ack (hw : RdmaHw) (a : AckPacket) (c : Sender) : Option Sender :=
  if a.seq ≤ c.sentBytes then do
    let (fired, qp) ← c.qp.receiveAck hw a
    return { c with qp := qp, finished := c.finished ++ fired }
  else none

def step (hw : RdmaHw) (c : Sender) : Event → Option Sender
  | .push size srcDataPtr mscclFlowId => some (c.push size.toNat srcDataPtr mscclFlowId.toNat)
  | .send win => c.send hw win
  | .sent => c.sent hw
  | .ack a => c.ack hw a

end Sender

/-! ### Acknowledging -/

/-- What an acknowledgement or the end of a transmission can do to the queue pair. -/
structure RdmaQueuePair.Advanced (qp qp' : RdmaQueuePair) (fired : List RdmaMessage) : Prop where
  sndUna_le : qp.sndUna ≤ qp'.sndUna
  messages : (fired = [] ∧ qp'.messages = qp.messages ∧ qp'.sndUna = qp.sndUna) ∨
    completeMessages qp'.sndUna qp.messages = (fired, qp'.messages)
  sndNxt : qp'.sndNxt = qp.sndNxt ∨ qp'.sndNxt = qp'.sndUna

namespace RdmaQueuePair

variable {hw : RdmaHw} {qp qp' : RdmaQueuePair} {fired : List RdmaMessage}

theorem advanced_finish (qp : RdmaQueuePair) (seq : Nat) :
    qp.Advanced (qp.acknowledge seq).finishMessages.2.autoComplete
      (qp.acknowledge seq).finishMessages.1 where
  sndUna_le := by simp [finishMessages]
  messages := Or.inr (by simp [finishMessages])
  sndNxt := Or.inl (by simp [finishMessages])

theorem Advanced.refl (qp : RdmaQueuePair) : qp.Advanced qp [] :=
  ⟨Nat.le_refl _, Or.inl ⟨rfl, rfl, rfl⟩, Or.inl rfl⟩

theorem Advanced.recover (h : qp.Advanced qp' fired) : qp.Advanced qp'.recoverQueue fired :=
  ⟨h.sndUna_le, h.messages, Or.inr rfl⟩

theorem sendPacketComplete_advanced (p : DataPacket) :
    qp.Advanced (qp.sendPacketComplete hw p).2 (qp.sendPacketComplete hw p).1 := by
  unfold sendPacketComplete
  split
  · exact .refl qp
  · split
    · exact advanced_finish qp _
    · exact .refl qp

theorem receiveAck_advanced {a : AckPacket} (h : qp.receiveAck hw a = some (fired, qp')) :
    qp.Advanced qp' fired := by
  unfold receiveAck at h
  split at h
  · cases h
    exact .refl qp
  · obtain ⟨r, hack, heq⟩ := Option.map_eq_some_iff.mp h
    have hadv : qp.Advanced r.2 r.1 := by
      unfold ackMessages at hack
      split at hack
      · cases hack
        exact .refl qp
      · split at hack
        · cases hack
        · cases hack
          exact advanced_finish qp _
    cases heq
    by_cases hnack : a.nack = true
    · rw [if_pos hnack]
      exact hadv.recover
    · rw [if_neg hnack]
      exact hadv

/-- `seq` is acknowledged and finished messages are removed; a closed queue pair stays as it is. -/
def Acknowledged (qp qp' : RdmaQueuePair) (seq : Nat) (fired : List RdmaMessage) : Prop :=
  (qp.closed = true ∧ fired = [] ∧ qp' = qp) ∨
    (qp'.sndUna = max qp.sndUna seq ∧ qp'.sndNxt = qp.sndNxt ∧
      completeMessages qp'.sndUna qp.messages = (fired, qp'.messages) ∧
      (qp'.closed = true → qp.closed = true ∨ qp'.messages = []))

theorem acknowledged_finish (qp : RdmaQueuePair) (seq : Nat) :
    qp.Acknowledged (qp.acknowledge seq).finishMessages.2.autoComplete seq
      (qp.acknowledge seq).finishMessages.1 := by
  have hclosed : (qp.acknowledge seq).closed = qp.closed := by
    rw [acknowledge]
    split <;> rfl
  refine Or.inr ⟨by simp [finishMessages], by simp [finishMessages], by simp [finishMessages], ?_⟩
  rw [autoComplete]
  split
  · next hfinished =>
      intro _
      exact Or.inr (List.isEmpty_iff.mp (Bool.and_eq_true_iff.mp hfinished).2)
  · intro h
    exact Or.inl (hclosed.symm.trans h)

theorem sendPacketComplete_acknowledged (h : hw.ackInterval = 0) (p : DataPacket) :
    qp.Acknowledged (qp.sendPacketComplete hw p).2 (u32 (u32 p.seq + p.payload.length))
      (qp.sendPacketComplete hw p).1 := by
  rw [sendPacketComplete]
  by_cases hclosed : qp.closed = true
  · rw [if_pos hclosed]
    exact Or.inl ⟨hclosed, rfl, rfl⟩
  · rw [if_neg hclosed, if_pos h]
    exact acknowledged_finish qp _

theorem sendPacketComplete_persistent (h : hw.ackInterval = 0) (hauto : qp.autoClose = false)
    (hopen : qp.closed = false) (p : DataPacket) :
    (qp.sendPacketComplete hw p).2.sndUna = max qp.sndUna (u32 (u32 p.seq + p.payload.length)) ∧
      (qp.sendPacketComplete hw p).2.sndNxt = qp.sndNxt ∧
      completeMessages (qp.sendPacketComplete hw p).2.sndUna qp.messages =
        ((qp.sendPacketComplete hw p).1, (qp.sendPacketComplete hw p).2.messages) ∧
      (qp.sendPacketComplete hw p).2.autoClose = false ∧
      (qp.sendPacketComplete hw p).2.closed = false := by
  have hack : ∀ seq, (qp.acknowledge seq).autoClose = false ∧ (qp.acknowledge seq).closed = false := by
    intro seq
    rw [acknowledge]
    split
    · exact ⟨hauto, hopen⟩
    · exact ⟨hauto, hopen⟩
  rw [sendPacketComplete, if_neg (by rw [hopen]; exact Bool.false_ne_true), if_pos h]
  simp [finishMessages, autoComplete, hack]

/-- The sequence number that `ReceiveAck` acknowledges. -/
def acknowledgedSeq (hw : RdmaHw) (seq : Nat) : Nat :=
  if hw.backto0 then seq / hw.chunk.toNat * hw.chunk.toNat else seq

theorem receiveAck_acknowledged {a : AckPacket} (h : hw.ackInterval ≠ 0) (hnack : a.nack = false)
    (hrecv : qp.receiveAck hw a = some (fired, qp')) :
    qp.Acknowledged qp' (acknowledgedSeq hw a.seq) fired := by
  rw [receiveAck] at hrecv
  by_cases hclosed : qp.closed = true
  · rw [if_pos hclosed] at hrecv
    cases hrecv
    exact Or.inl ⟨hclosed, rfl, rfl⟩
  · rw [if_neg hclosed] at hrecv
    obtain ⟨r, hack, heq⟩ := Option.map_eq_some_iff.mp hrecv
    rw [ackMessages, if_neg h] at hack
    simp only [hnack, Bool.false_eq_true, if_false] at heq
    split at hack
    · cases hack
    · rw [← Option.some_inj.mp hack] at heq
      cases heq
      exact acknowledged_finish qp _

theorem receiveAck_nack {a : AckPacket} (hnack : a.nack = true)
    (hrecv : qp.receiveAck hw a = some (fired, qp')) : qp' = qp ∨ qp'.sndNxt = qp'.sndUna := by
  rw [receiveAck] at hrecv
  by_cases hclosed : qp.closed = true
  · rw [if_pos hclosed] at hrecv
    cases hrecv
    exact Or.inl rfl
  · rw [if_neg hclosed] at hrecv
    obtain ⟨r, -, heq⟩ := Option.map_eq_some_iff.mp hrecv
    simp only [hnack, if_true] at heq
    cases heq
    exact Or.inr rfl

theorem receiveAck_of_noAck {a : AckPacket} (h : hw.ackInterval = 0)
    (hrecv : qp.receiveAck hw a = some (fired, qp')) :
    fired = [] ∧ (qp' = qp ∨ (a.nack = true ∧ qp' = qp.recoverQueue)) := by
  rw [receiveAck] at hrecv
  by_cases hclosed : qp.closed = true
  · rw [if_pos hclosed] at hrecv
    cases hrecv
    exact ⟨rfl, Or.inl rfl⟩
  · rw [if_neg hclosed, ackMessages, if_pos h] at hrecv
    cases hnack : a.nack with
    | true =>
        simp only [Option.map_some, hnack, if_true] at hrecv
        cases hrecv
        exact ⟨rfl, Or.inr ⟨rfl, rfl⟩⟩
    | false =>
        simp only [Option.map_some, hnack, Bool.false_eq_true, if_false] at hrecv
        cases hrecv
        exact ⟨rfl, Or.inl rfl⟩

end RdmaQueuePair

/-! ### What every sender keeps -/

namespace Sender

/-- The size of the front message. -/
def frontSize (c : Sender) : Nat := (c.qp.messages.head?.map RdmaMessage.size).getD 0

/-- Finished and queued messages are the pushed ones; no sequence number is beyond the front message
or beyond what has been sent. -/
structure Tracked (c : Sender) : Prop where
  accounted : Accounted c.pushed c.finished c.qp.messages c.qp.sndUna
  sndNxt_front : c.qp.sndNxt ≤ (stream c.finished).length + c.frontSize
  sndUna_front : c.qp.sndUna ≤ (stream c.finished).length + c.frontSize
  sndNxt_sent : c.qp.sndNxt ≤ c.sentBytes
  sndUna_sent : c.qp.sndUna ≤ c.sentBytes
  inTx_sent : ∀ p ∈ c.inTx, p.seq + p.payload.length ≤ c.sentBytes
  sent_pushed : c.sentBytes ≤ (stream c.pushed).length

/-- A push onto an empty queue finds `snd_nxt` not behind `snd_una`, and the pushed bytes stay below
`2 ^ 64`. -/
def PushAligned (c : Sender) (size : Nat) : Prop :=
  (c.qp.messages = [] → c.qp.sndUna ≤ c.qp.sndNxt) ∧
    (c.pushed.map RdmaMessage.size).sum + size < 2 ^ 64

instance (c : Sender) (size : Nat) : Decidable (c.PushAligned size) := by
  unfold PushAligned
  infer_instance

namespace Tracked

variable {c c' : Sender} {hw : RdmaHw}

theorem initial (autoClose : Bool) (mscclFlowId : Nat) :
    Tracked (Sender.initial autoClose mscclFlowId) where
  accounted := ⟨rfl, trivial, Nat.two_pow_pos 64, Nat.le_refl _⟩
  sndNxt_front := Nat.le_refl _
  sndUna_front := Nat.le_refl _
  sndNxt_sent := Nat.le_refl _
  sndUna_sent := Nat.le_refl _
  inTx_sent := by intro p hp; cases hp
  sent_pushed := Nat.le_refl _

theorem of_empty (h : Tracked c) (hempty : c.qp.messages = []) :
    c.qp.sndUna = (stream c.pushed).length ∧ c.qp.sndNxt ≤ (stream c.pushed).length := by
  have hacc := h.accounted
  rw [hempty] at hacc
  have hle := hacc.empty_le
  have hsent := h.sndUna_sent
  have hnxt := h.sndNxt_sent
  have hpushed := h.sent_pushed
  omega

theorem front_end (h : Tracked c) {front : RdmaMessage} {rest : List RdmaMessage}
    (hmessages : c.qp.messages = front :: rest) :
    front.startSeq = (stream c.finished).length ∧ c.frontSize = front.size ∧
      front.startSeq + front.size ≤ (stream c.pushed).length ∧
      front.startSeq + front.size < 2 ^ 64 := by
  have hacc := h.accounted
  rw [hmessages] at hacc
  refine ⟨hacc.front_start, ?_, hacc.front_end, Nat.lt_of_le_of_lt hacc.front_end hacc.fits⟩
  rw [frontSize, hmessages]
  rfl

theorem push (h : Tracked c) (size : Nat) (srcDataPtr : Option (Int → UInt8)) (mscclFlowId : Nat)
    (hok : c.PushAligned size) : Tracked (c.push size srcDataPtr mscclFlowId) := by
  obtain ⟨haligned, hfits⟩ := hok
  have hempty : c.qp.messages = [] → c.qp.sndNxt = (stream c.pushed).length := by
    intro hnil
    obtain ⟨huna, hnxt⟩ := h.of_empty hnil
    have := haligned hnil
    omega
  have hfront : c.frontSize ≤ (c.push size srcDataPtr mscclFlowId).frontSize := by
    simp only [frontSize, Sender.push, RdmaQueuePair.pushMessage]
    cases c.qp.messages <;> simp
  refine ⟨?_, ?_, ?_, h.sndNxt_sent, h.sndUna_sent, h.inTx_sent, ?_⟩
  · apply h.accounted.push size srcDataPtr mscclFlowId hempty
    rwa [stream_length]
  · exact Nat.le_trans h.sndNxt_front (Nat.add_le_add_left hfront _)
  · exact Nat.le_trans h.sndUna_front (Nat.add_le_add_left hfront _)
  · have hsent := h.sent_pushed
    simp only [Sender.push, stream_append, List.length_append]
    omega

theorem send_cases {win : Nat} (h : Tracked c) (hsend : c.send hw win = some c') :
    ∃ front rest, c.qp.messages = front :: rest ∧ c.inTx = none ∧
      c' = { c with
        inTx := some (c.qp.getNxtPacket hw).1
        qp := (c.qp.getNxtPacket hw).2
        sentBytes := max c.sentBytes (c.qp.getNxtPacket hw).2.sndNxt
        emitted := c.emitted ++ [(c.qp.getNxtPacket hw).1] } ∧
      (c.qp.getNxtPacket hw).1.seq = c.qp.sndNxt ∧
      (c.qp.getNxtPacket hw).2.sndNxt = c.qp.sndNxt + (c.qp.getNxtPacket hw).1.payload.length ∧
      c.qp.sndNxt + (c.qp.getNxtPacket hw).1.payload.length ≤ front.startSeq + front.size ∧
      (c.qp.getNxtPacket hw).1.mscclFlowId = front.mscclFlowId ∧
      (front.startSeq ≤ c.qp.sndNxt → SliceAt front.bytes (c.qp.sndNxt - front.startSeq)
        (c.qp.getNxtPacket hw).1.payload) := by
  rw [Sender.send] at hsend
  split at hsend
  · next hguard =>
      obtain ⟨htx, hleft, -⟩ := hguard
      obtain ⟨front, rest, hmessages⟩ := RdmaQueuePair.messages_ne_nil_of_getBytesLeft hleft
      obtain ⟨hseq, hend, hnxt, hslice⟩ :=
        RdmaQueuePair.getNxtPacket_spec hw hmessages (h.front_end hmessages).2.2.2 hleft
      refine ⟨front, rest, hmessages, htx, (Option.some_inj.mp hsend).symm, hseq, hnxt, hend, ?_, hslice⟩
      simp [RdmaQueuePair.getNxtPacket, RdmaQueuePair.getCurMscclFlowId, hmessages]
  · cases hsend

theorem send (h : Tracked c) {win : Nat} (hsend : c.send hw win = some c') : Tracked c' := by
  obtain ⟨front, rest, hmessages, htx, rfl, hseq, hnxt, hend, -, -⟩ := h.send_cases hsend
  obtain ⟨hstart, hsize, hpushed, -⟩ := h.front_end hmessages
  have hsent := h.sent_pushed
  refine ⟨h.accounted, ?_, h.sndUna_front, Nat.le_max_right _ _,
    Nat.le_trans h.sndUna_sent (Nat.le_max_left _ _), ?_, ?_⟩
  · have hfront : (stream c.finished).length + c.frontSize = front.startSeq + front.size := by
      rw [hstart, hsize]
    exact Nat.le_trans (Nat.le_of_eq hnxt) (Nat.le_trans hend (Nat.le_of_eq hfront.symm))
  · intro p hp
    cases hp
    rw [hseq, ← hnxt]
    exact Nat.le_max_right _ _
  · simp only [hnxt]
    omega

theorem advance (h : Tracked c) {qp : RdmaQueuePair} {fired : List RdmaMessage}
    (hadv : c.qp.Advanced qp fired) (hsent : qp.sndUna ≤ c.sentBytes)
    (hqp : c'.qp = qp) (hfinished : c'.finished = c.finished ++ fired)
    (hpushed : c'.pushed = c.pushed) (hbytes : c'.sentBytes = c.sentBytes)
    (hinTx : ∀ p ∈ c'.inTx, p ∈ c.inTx) : Tracked c' := by
  have hmono : (stream c.finished).length + c.frontSize ≤
      (stream c'.finished).length + c'.frontSize := by
    rcases hadv.messages with ⟨hnone, hsame, -⟩ | hloop
    · rw [hfinished, hnone, List.append_nil, frontSize, frontSize, hqp, hsame]
    · have hle := RdmaQueuePair.completeMessages_head_le qp.sndUna c.finished c.qp.messages
      rw [hloop] at hle
      rwa [hfinished, frontSize, frontSize, hqp]
  have haccounted : Accounted c'.pushed c'.finished c'.qp.messages c'.qp.sndUna := by
    rw [hpushed, hfinished, hqp]
    rcases hadv.messages with ⟨hnone, hsame, huna⟩ | hloop
    · rw [hnone, hsame, huna, List.append_nil]
      exact h.accounted
    · have hcomplete := (h.accounted.mono hadv.sndUna_le).complete
      rwa [hloop] at hcomplete
  have huna : c'.qp.sndUna ≤ (stream c'.finished).length + c'.frontSize := by
    rcases hadv.messages with ⟨-, -, hsame⟩ | hloop
    · rw [hqp, hsame]
      exact Nat.le_trans h.sndUna_front hmono
    · cases hmessages : c'.qp.messages with
      | nil =>
          have hall : c'.finished = c'.pushed := by
            simpa [hmessages] using haccounted.split
          rw [hall, hpushed, hqp]
          exact Nat.le_trans hsent (Nat.le_trans h.sent_pushed (Nat.le_add_right _ _))
      | cons front rest =>
          have hacc := haccounted
          rw [hmessages] at hacc
          have hfront : c'.frontSize = front.size := by
            rw [frontSize, hmessages]
            rfl
          rw [hqp] at hmessages
          have hlt := RdmaQueuePair.completeMessages_front hloop hmessages
          rw [u64_of_lt (Nat.lt_of_le_of_lt hacc.front_end hacc.fits), hacc.front_start] at hlt
          rw [hfront, hqp]
          exact Nat.le_of_lt hlt
  refine ⟨haccounted, ?_, huna, ?_, ?_, ?_, ?_⟩
  · rcases hadv.sndNxt with hsame | hback
    · rw [hqp, hsame]
      exact Nat.le_trans h.sndNxt_front hmono
    · rwa [hqp, hback, ← hqp]
  · rw [hbytes, hqp]
    rcases hadv.sndNxt with hsame | hback
    · rw [hsame]
      exact h.sndNxt_sent
    · rwa [hback]
  · rwa [hbytes, hqp]
  · intro p hp
    rw [hbytes]
    exact h.inTx_sent p (hinTx p hp)
  · rw [hbytes, hpushed]
    exact h.sent_pushed

theorem sent (h : Tracked c) (hsent : c.sent hw = some c') : Tracked c' := by
  obtain ⟨p, htx, rfl⟩ := Option.map_eq_some_iff.mp hsent
  have hle := RdmaQueuePair.sendPacketComplete_sndUna_le hw p c.qp
  have hp := h.inTx_sent p htx
  have huna := h.sndUna_sent
  exact h.advance (RdmaQueuePair.sendPacketComplete_advanced p) (by omega) rfl rfl rfl rfl
    (by intro p hp; cases hp)

theorem ack_cases {a : AckPacket} (hack : c.ack hw a = some c') :
    ∃ fired qp, a.seq ≤ c.sentBytes ∧ c.qp.receiveAck hw a = some (fired, qp) ∧
      c' = { c with qp := qp, finished := c.finished ++ fired } := by
  rw [Sender.ack] at hack
  split at hack
  · next hseq =>
      obtain ⟨r, hrecv, hr⟩ := Option.bind_eq_some_iff.mp hack
      exact ⟨r.1, r.2, hseq, hrecv, (Option.some_inj.mp hr).symm⟩
  · cases hack

theorem ack (h : Tracked c) {a : AckPacket} (hack : c.ack hw a = some c') : Tracked c' := by
  obtain ⟨fired, qp, hseq, hrecv, rfl⟩ := ack_cases hack
  have hle := RdmaQueuePair.receiveAck_sndUna_le hrecv
  have huna := h.sndUna_sent
  exact h.advance (RdmaQueuePair.receiveAck_advanced hrecv) (by omega) rfl rfl rfl rfl
    (fun p hp => hp)

end Tracked

end Sender

end CollectiveSim.Rdma
