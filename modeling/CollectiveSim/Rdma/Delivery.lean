import Mathlib
import CollectiveSim.Rdma.Accounting

/-!
# Go-back-N delivery over a lossy network

With acknowledgements on, sender and receiver agree on one byte stream as long as every message
starts where the stream ends. Only a push onto an empty queue takes its start from `snd_nxt`.
-/

namespace CollectiveSim.Rdma.Connection

open Framework

/-- The bytes handed over are a prefix of the pushed ones, and the messages whose finish callback
has fired are the first of the pushed ones, all handed over. -/
structure DeliveredInOrder (c : Connection) : Prop where
  bytes : c.delivered <+: stream c.pushed
  order : c.finished <+: c.pushed
  after : stream c.finished <+: c.delivered

/-- A push onto an empty queue finds nothing sent back, and the pushed bytes stay below `2 ^ 64`. -/
def Aligned (c : Connection) : Event → Prop
  | .push size _ _ =>
      (c.qp.messages = [] → c.qp.sndNxt = c.qp.sndUna) ∧
        (c.pushed.map RdmaMessage.size).sum + size.toNat < 2 ^ 64
  | _ => True

instance (c : Connection) : (e : Event) → Decidable (Aligned c e)
  | .push _ _ _ => inferInstanceAs (Decidable ((_ → _) ∧ _ < _))
  | .send _ | .sent | .drop _ | .arrive _ _ | .dropAck _ | .ackArrive _ => .isTrue trivial

/-- Sender, network and receiver agree on the stream of the pushed messages. -/
structure Agreed (c : Connection) : Prop where
  accounted : Accounted c.pushed c.finished c.qp.messages c.qp.sndUna
  sndUna_le : c.qp.sndUna ≤ c.rxQp.receiverNextExpectedSeq
  acks_le : ∀ a ∈ c.acks, a.seq ≤ c.rxQp.receiverNextExpectedSeq
  next_le : c.rxQp.receiverNextExpectedSeq ≤ (stream c.pushed).length
  delivered_eq : c.delivered = (stream c.pushed).take c.rxQp.receiverNextExpectedSeq
  inFlight : ∀ p ∈ c.inTx.toList ++ c.wire, p.seq < c.rxQp.receiverNextExpectedSeq ∨
    SliceAt (stream c.pushed) p.seq p.payload

namespace Agreed

variable {c c' : Connection} {hw : RdmaHw}

theorem initial (autoClose : Bool) (mscclFlowId : Nat) :
    Agreed (Connection.initial autoClose mscclFlowId) where
  accounted := ⟨rfl, trivial, Nat.two_pow_pos 64, Nat.le_refl _⟩
  sndUna_le := Nat.le_refl _
  acks_le := by intro a ha; cases ha
  next_le := Nat.le_refl _
  delivered_eq := rfl
  inFlight := by intro p hp; cases hp

theorem deliveredInOrder (h : Agreed c) : DeliveredInOrder c where
  bytes := by
    rw [h.delivered_eq]
    exact List.take_prefix _ _
  order := h.accounted.finished_prefix
  after := by
    rw [h.delivered_eq, h.accounted.stream_finished_eq]
    exact List.take_prefix_take_left (Nat.le_trans h.accounted.finished_le h.sndUna_le)

theorem sndUna_eq_of_empty (h : Agreed c) (hempty : c.qp.messages = []) :
    c.qp.sndUna = (stream c.pushed).length := by
  have hacc := h.accounted
  rw [hempty] at hacc
  have hle := hacc.empty_le
  have := h.sndUna_le
  have := h.next_le
  omega

theorem push (h : Agreed c) (size : Nat) (srcDataPtr : Option (Int → UInt8)) (mscclFlowId : Nat)
    (hempty : c.qp.messages = [] → c.qp.sndNxt = c.qp.sndUna)
    (hfits : (c.pushed.map RdmaMessage.size).sum + size < 2 ^ 64) :
    Agreed (c.push size srcDataPtr mscclFlowId) where
  accounted := by
    refine h.accounted.push size srcDataPtr mscclFlowId ?_ ?_
    · intro hnil
      rw [hempty hnil, h.sndUna_eq_of_empty hnil]
    · rwa [stream_length]
  sndUna_le := h.sndUna_le
  acks_le := h.acks_le
  next_le := by
    have := h.next_le
    simp only [Connection.push, stream_append, List.length_append]
    omega
  delivered_eq := by
    simp only [Connection.push, stream_append]
    rw [List.take_append_of_le_length h.next_le]
    exact h.delivered_eq
  inFlight := by
    intro p hp
    simp only [Connection.push, stream_append]
    exact (h.inFlight p hp).imp_right fun hslice => hslice.append_right _

theorem send (h : Agreed c) {win : Nat} (hsend : c.send hw win = some c') : Agreed c' := by
  unfold Connection.send at hsend
  split at hsend
  · rename_i hguard
    obtain ⟨htx, hleft, -⟩ := hguard
    cases hsend
    obtain ⟨front, rest, hmessages⟩ := RdmaQueuePair.messages_ne_nil_of_getBytesLeft hleft
    have hacc := h.accounted
    rw [hmessages] at hacc
    have hend : front.startSeq + front.size < 2 ^ 64 :=
      Nat.lt_of_le_of_lt hacc.front_end hacc.fits
    obtain ⟨hseq, -, -, hslice⟩ := RdmaQueuePair.getNxtPacket_spec hw hmessages hend hleft
    refine { h with inFlight := ?_ }
    intro p hp
    simp only [Option.toList_some, List.singleton_append, List.mem_cons] at hp
    rcases hp with rfl | hp
    · by_cases hstart : front.startSeq ≤ c.qp.sndNxt
      · right
        rw [hseq]
        have := hacc.front_sliceAt.trans (hslice hstart)
        rwa [Nat.add_sub_cancel' hstart] at this
      · left
        -- the queue went back behind a message that is already acknowledged
        have hstart := hacc.front_start
        have hdone := hacc.finished_le
        have hnext := h.sndUna_le
        rw [hseq]
        change c.qp.sndNxt < c.rxQp.receiverNextExpectedSeq
        omega
    · exact h.inFlight p (List.mem_append_right _ hp)
  · cases hsend

theorem sent (h : Agreed c) (hack : hw.ackInterval ≠ 0) (hsent : c.sent hw = some c') :
    Agreed c' := by
  unfold Connection.sent at hsent
  rw [Option.map_eq_some_iff] at hsent
  obtain ⟨p, htx, rfl⟩ := hsent
  rw [RdmaQueuePair.sendPacketComplete_of_ackInterval hack, List.append_nil]
  refine { h with inFlight := ?_ }
  intro q hq
  apply h.inFlight q
  simp only [htx, Option.toList_none, Option.toList_some, List.nil_append, List.mem_append,
    List.mem_singleton] at hq ⊢
  exact hq.symm

theorem drop (h : Agreed c) {i : Nat} (hdrop : c.drop i = some c') : Agreed c' := by
  unfold Connection.drop at hdrop
  split at hdrop
  · cases hdrop
    refine { h with inFlight := ?_ }
    intro p hp
    apply h.inFlight p
    rcases List.mem_append.mp hp with hp | hp
    · exact List.mem_append_left _ hp
    · exact List.mem_append_right _ (List.mem_of_mem_eraseIdx hp)
  · cases hdrop

theorem arrive (h : Agreed c) (hb : hw.backto0 = false) {i now : Nat}
    (harrive : c.arrive hw i now = some c') : Agreed c' := by
  simp only [Connection.arrive, Option.bind_eq_bind, Option.pure_def, Option.bind_eq_some_iff,
    Option.some.injEq, Prod.exists] at harrive
  obtain ⟨p, hp, rxQp, handed, reply, hrecv, rfl⟩ := harrive
  have hmem : p ∈ c.wire := List.mem_of_getElem? hp
  have hrest : ∀ q ∈ c.inTx.toList ++ c.wire.eraseIdx i, q ∈ c.inTx.toList ++ c.wire := by
    intro q hq
    rcases List.mem_append.mp hq with hq | hq
    · exact List.mem_append_left _ hq
    · exact List.mem_append_right _ (List.mem_of_mem_eraseIdx hq)
  obtain ⟨hreply, hcases⟩ := RdmaRxQueuePair.receiveUdp_cases hb hrecv
  rcases hcases with ⟨hseq, rfl, hnext⟩ | ⟨-, rfl, hnext⟩
  · -- the expected packet: it is not a retransmission, so it is the next slice of the stream
    have hslice : SliceAt (stream c.pushed) c.rxQp.receiverNextExpectedSeq p.payload := by
      rcases h.inFlight p (List.mem_append_right _ hmem) with hlt | hslice
      · omega
      · rwa [hseq] at hslice
    have hend := hslice.end_le
    have hfits := h.accounted.fits
    rw [u64_of_lt (by omega)] at hnext
    have hgrow : c.rxQp.receiverNextExpectedSeq ≤ rxQp.receiverNextExpectedSeq := by omega
    refine ⟨h.accounted, Nat.le_trans h.sndUna_le hgrow, ?_, by simpa [hnext] using hend, ?_, ?_⟩
    · intro a ha
      rcases List.mem_append.mp ha with ha | ha
      · exact Nat.le_trans (h.acks_le a ha) hgrow
      · exact Nat.le_of_eq (hreply a ha)
    · simp only [h.delivered_eq, hnext]
      exact hslice.take_append
    · intro q hq
      exact (h.inFlight q (hrest q hq)).imp_left fun hlt => Nat.lt_of_lt_of_le hlt hgrow
  · refine ⟨h.accounted, by simpa [hnext] using h.sndUna_le, ?_, by simpa [hnext] using h.next_le,
      by simpa [hnext] using h.delivered_eq, ?_⟩
    · intro a ha
      rcases List.mem_append.mp ha with ha | ha
      · exact hnext ▸ h.acks_le a ha
      · exact Nat.le_of_eq (hreply a ha)
    · intro q hq
      exact hnext ▸ h.inFlight q (hrest q hq)

theorem dropAck (h : Agreed c) {i : Nat} (hdrop : c.dropAck i = some c') : Agreed c' := by
  unfold Connection.dropAck at hdrop
  split at hdrop
  · cases hdrop
    exact { h with acks_le := fun a ha => h.acks_le a (List.mem_of_mem_eraseIdx ha) }
  · cases hdrop

theorem ackArrive (h : Agreed c) {i : Nat} (hackArrive : c.ackArrive hw i = some c') : Agreed c' := by
  simp only [Connection.ackArrive, Option.bind_eq_bind, Option.pure_def, Option.bind_eq_some_iff,
    Option.some.injEq, Prod.exists] at hackArrive
  obtain ⟨a, ha, fired, qp, hrecv, rfl⟩ := hackArrive
  have hseq : a.seq ≤ c.rxQp.receiverNextExpectedSeq := h.acks_le a (List.mem_of_getElem? ha)
  have hle := RdmaQueuePair.receiveAck_sndUna_le hrecv
  exact {
    accounted := h.accounted.receiveAck hrecv
    sndUna_le := Nat.le_trans hle (Nat.max_le.mpr ⟨h.sndUna_le, hseq⟩)
    acks_le := fun b hb => h.acks_le b (List.mem_of_mem_eraseIdx hb)
    next_le := h.next_le
    delivered_eq := h.delivered_eq
    inFlight := h.inFlight }

theorem step (hack : hw.ackInterval ≠ 0) (hb : hw.backto0 = false) (c : Connection) (e : Event)
    (c' : Connection) (h : Agreed c) (hok : Aligned c e) (hstep : c.step hw e = some c') :
    Agreed c' := by
  cases e with
  | push size srcDataPtr mscclFlowId =>
      cases hstep
      exact h.push _ _ _ hok.1 hok.2
  | send win => exact h.send hstep
  | sent => exact h.sent hack hstep
  | drop i => exact h.drop hstep
  | arrive i now => exact h.arrive hb hstep
  | dropAck i => exact h.dropAck hstep
  | ackArrive i => exact h.ackArrive hstep

end Agreed

/-- Every run in which no message is pushed onto a queue that was set back delivers in order. -/
theorem run_deliveredInOrder (hw : RdmaHw) (hack : hw.ackInterval ≠ 0) (hb : hw.backto0 = false)
    (autoClose : Bool) (mscclFlowId : Nat) (es : List Event) (c : Connection)
    (hrun : Run (step hw) Aligned (initial autoClose mscclFlowId) es c) : DeliveredInOrder c :=
  (hrun.invariant (Agreed.step hack hb) (Agreed.initial autoClose mscclFlowId)).deliveredInOrder

/-- One byte per packet, no window, every byte acknowledged. -/
def byteHw : RdmaHw := ⟨1, 1, 1, false, 10⟩

/-- A transfer of two messages, the second pushed while the first is under way. -/
def twoMessages : List Event :=
  [.push 2 (some fun i => UInt8.ofInt (i + 1)) 7, .send 0, .sent,
   .push 1 (some fun _ => 9) 8, .send 0, .sent, .drop 0, .arrive 0 1, .ackArrive 0,
   .send 0, .sent, .send 0, .sent, .arrive 0 2, .arrive 0 3, .ackArrive 1,
   .send 0, .sent, .arrive 0 4, .ackArrive 1]

theorem twoMessages_deliveredInOrder :
    byteHw.ackInterval ≠ 0 ∧ byteHw.backto0 = false ∧
      ∃ c, Run (step byteHw) Aligned (initial false 0) twoMessages c ∧
        (c.delivered = [1, 2, 9] ∧ c.finished.length = 2) ∧ DeliveredInOrder c := by
  have hack : byteHw.ackInterval ≠ 0 := by decide
  have hb : byteHw.backto0 = false := rfl
  obtain ⟨c, hrun, hc⟩ := exists_run (step byteHw) Aligned
    (fun c => c.delivered = [1, 2, 9] ∧ c.finished.length = 2) (initial false 0) twoMessages
    (by decide +kernel)
  exact ⟨hack, hb, c, hrun, hc, run_deliveredInOrder byteHw hack hb false 0 twoMessages c hrun⟩

/-- The first packet of a message is lost and its loss reported twice; the second report arrives
after the retransmission and sets `snd_nxt` back below what the next ACK acknowledges. -/
def lateNack : List Event :=
  [.push 3 (some fun i => UInt8.ofInt (i + 1)) 7, .send 0, .sent, .send 0, .sent, .send 0, .sent,
   .drop 0, .arrive 0 1, .arrive 0 20,
   .ackArrive 0, .send 0, .sent, .send 0, .sent, .send 0, .sent,
   .arrive 0 21, .arrive 0 22, .arrive 0 23,
   .ackArrive 0, .ackArrive 2,
   .push 4 (some fun i => UInt8.ofInt (i + 11)) 7,
   .send 0, .sent, .send 0, .sent, .send 0, .sent, .send 0, .sent,
   .arrive 0 24, .arrive 0 25, .arrive 0 26, .arrive 0 27]

/-- The bytes handed over need not be a prefix of the pushed ones. -/
theorem lateNack_not_deliveredInOrder :
    byteHw.ackInterval ≠ 0 ∧ byteHw.backto0 = false ∧
      ∃ c, Run (step byteHw) anyEvent (initial false 0) lateNack c ∧
        c.delivered = [1, 2, 3, 14] ∧ stream c.pushed = [1, 2, 3, 11, 12, 13, 14] ∧
        ¬ DeliveredInOrder c := by
  obtain ⟨c, hrun, hdelivered, hpushed⟩ := exists_run (step byteHw) anyEvent
    (fun c => c.delivered = [1, 2, 3, 14] ∧ stream c.pushed = [1, 2, 3, 11, 12, 13, 14])
    (initial false 0) lateNack (by decide +kernel)
  refine ⟨by decide, rfl, c, hrun, hdelivered, hpushed, ?_⟩
  intro h
  have hprefix := h.bytes
  rw [hdelivered, hpushed] at hprefix
  exact absurd hprefix (by decide)

end CollectiveSim.Rdma.Connection
