import CollectiveSim.Rdma.Accounting
import CollectiveSim.Rdma.Receiver

/-!
# Messages that are left behind

A message is taken out of the queue when something is acknowledged. A message of no bytes that is pushed
when nothing is left to be acknowledged stays there.
-/

namespace CollectiveSim.Rdma

open Framework

namespace RdmaQueuePair

/-- The front message is not finished. -/
def Unfinished (qp : RdmaQueuePair) : Prop :=
  ∀ front ∈ qp.messages.head?, qp.sndUna < u64 (front.startSeq + front.size)

theorem unfinished_finishMessages (qp : RdmaQueuePair) : qp.finishMessages.2.Unfinished := by
  intro front hfront
  obtain ⟨rest, hrest⟩ := List.head?_eq_some_iff.mp (Option.mem_def.mp hfront)
  have hsplit : completeMessages qp.sndUna qp.messages =
      ((completeMessages qp.sndUna qp.messages).1, (completeMessages qp.sndUna qp.messages).2) := rfl
  exact completeMessages_front hsplit hrest

theorem Unfinished.congr {qp qp' : RdmaQueuePair} (h : qp.Unfinished)
    (hmessages : qp'.messages = qp.messages) (hsndUna : qp'.sndUna = qp.sndUna) :
    qp'.Unfinished := by
  rw [Unfinished, hmessages, hsndUna]
  exact h

theorem sendPacketComplete_cases (hw : RdmaHw) (p : DataPacket) (qp : RdmaQueuePair) :
    ((hw.ackInterval ≠ 0 ∨ qp.closed = true) ∧ qp.sendPacketComplete hw p = ([], qp)) ∨
      (¬ (hw.ackInterval ≠ 0 ∨ qp.closed = true) ∧ (qp.sendPacketComplete hw p).2.Unfinished) := by
  by_cases hclosed : qp.closed = true
  · left
    rw [sendPacketComplete, if_pos hclosed]
    exact ⟨Or.inr hclosed, rfl⟩
  · by_cases hack : hw.ackInterval = 0
    · right
      rw [sendPacketComplete, if_neg hclosed, if_pos hack]
      constructor
      · simp [hack, hclosed]
      · apply (unfinished_finishMessages _).congr
        · exact autoComplete_messages _
        · exact autoComplete_sndUna _
    · left
      exact ⟨Or.inl hack, sendPacketComplete_of_ackInterval hack p qp⟩

/-- The messages that an ACK finishes are those below some number that it acknowledges. -/
theorem ackMessages_cases {hw : RdmaHw} {a : AckPacket} {qp qp' : RdmaQueuePair}
    {fired : List RdmaMessage} (h : qp.ackMessages hw a = some (fired, qp')) :
    (fired = [] ∧ qp' = qp) ∨ ∃ ack, fired = (qp.acknowledge ack).finishMessages.1 ∧
      qp' = (qp.acknowledge ack).finishMessages.2.autoComplete := by
  rw [ackMessages] at h
  by_cases hoff : hw.ackInterval = 0
  · rw [if_pos hoff] at h
    cases h
    exact Or.inl ⟨rfl, rfl⟩
  · rw [if_neg hoff] at h
    by_cases hzero : (hw.backto0 && hw.chunk == 0) = true
    · rw [if_pos hzero] at h
      cases h
    · rw [if_neg hzero] at h
      cases h
      exact Or.inr ⟨_, rfl, rfl⟩

theorem receiveAck_unfinished {hw : RdmaHw} {a : AckPacket} {qp qp' : RdmaQueuePair}
    {fired : List RdmaMessage} (h : qp.receiveAck hw a = some (fired, qp')) :
    (qp'.messages = qp.messages ∧ qp'.sndUna = qp.sndUna ∧ fired = []) ∨ qp'.Unfinished := by
  obtain ⟨rfl, rfl⟩ | ⟨qp₁, hack, hmessages, hsndUna⟩ := receiveAck_cases h
  · exact Or.inl ⟨rfl, rfl, rfl⟩
  · obtain ⟨rfl, rfl⟩ | ⟨ack, rfl, rfl⟩ := ackMessages_cases hack
    · exact Or.inl ⟨hmessages, hsndUna, rfl⟩
    · right
      apply (unfinished_finishMessages (qp.acknowledge ack)).congr
      · rw [hmessages, autoComplete_messages]
      · rw [hsndUna, autoComplete_sndUna]

theorem sendPacketComplete_append (hw : RdmaHw) (p : DataPacket) (qp : RdmaQueuePair) :
    (qp.sendPacketComplete hw p).1 ++ (qp.sendPacketComplete hw p).2.messages = qp.messages := by
  rw [sendPacketComplete]
  by_cases hclosed : qp.closed = true
  · rw [if_pos hclosed, List.nil_append]
  · rw [if_neg hclosed]
    by_cases hack : hw.ackInterval = 0
    · rw [if_pos hack]
      simp [finishMessages, completeMessages_append]
    · rw [if_neg hack, List.nil_append]

theorem receiveAck_append {hw : RdmaHw} {a : AckPacket} {qp qp' : RdmaQueuePair}
    {fired : List RdmaMessage} (h : qp.receiveAck hw a = some (fired, qp')) :
    fired ++ qp'.messages = qp.messages := by
  obtain ⟨rfl, rfl⟩ | ⟨qp₁, hack, hmessages, hsndUna⟩ := receiveAck_cases h
  · rfl
  · rw [hmessages]
    obtain ⟨rfl, rfl⟩ | ⟨ack, rfl, rfl⟩ := ackMessages_cases hack
    · rfl
    · simp [finishMessages, completeMessages_append]

theorem receiveAck_sndNxt_le {hw : RdmaHw} {a : AckPacket} {qp qp' : RdmaQueuePair}
    {fired : List RdmaMessage} (h : qp.receiveAck hw a = some (fired, qp')) :
    qp'.sndNxt ≤ max qp.sndNxt qp'.sndUna := by
  rw [receiveAck] at h
  by_cases hclosed : qp.closed = true
  · rw [if_pos hclosed] at h
    cases h
    exact Nat.le_max_left _ _
  · rw [if_neg hclosed, Option.map_eq_some_iff] at h
    obtain ⟨⟨fired₁, qp₁⟩, hack, heq⟩ := h
    cases heq
    have hsame : qp₁.sndNxt = qp.sndNxt := by
      obtain ⟨-, rfl⟩ | ⟨ack, -, rfl⟩ := ackMessages_cases hack
      · rfl
      · simp [finishMessages]
    by_cases hnack : a.nack = true
    · simp [hnack, recoverQueue]
    · simp [hnack, hsame]

end RdmaQueuePair

namespace Connection

/-- The bytes pushed so far. -/
def total (c : Connection) : Nat := (c.pushed.map RdmaMessage.size).sum

/-- Every sequence number is within the bytes pushed, and every message is queued or finished. -/
structure WithinPushed (c : Connection) : Prop where
  split : c.finished ++ c.qp.messages = c.pushed
  ends : ∀ m ∈ c.qp.messages, u64 (m.startSeq + m.size) ≤ c.total
  sndNxt : c.qp.sndNxt ≤ c.total
  sndUna : c.qp.sndUna ≤ c.total
  inTx : ∀ p ∈ c.inTx, p.seq + p.payload.length ≤ c.total
  wire : ∀ p ∈ c.wire, p.seq + p.payload.length ≤ c.total
  expected : c.rxQp.receiverNextExpectedSeq ≤ c.total
  acks : ∀ a ∈ c.acks, a.seq ≤ c.total

variable {hw : RdmaHw} {c c' : Connection}

theorem withinPushed_initial (autoClose : Bool) (mscclFlowId : Nat) :
    WithinPushed (initial autoClose mscclFlowId) := by
  constructor <;> simp [initial, total, RdmaRxQueuePair.initial]

namespace WithinPushed

theorem push (h : WithinPushed c) (size : Nat) (srcDataPtr : Option (Int → UInt8))
    (mscclFlowId : Nat) : WithinPushed (c.push size srcDataPtr mscclFlowId) := by
  have htotal : (c.push size srcDataPtr mscclFlowId).total = c.total + size := by
    simp [total, Connection.push]
  have hstart : c.qp.nextStartSeq ≤ c.total := by
    rw [RdmaQueuePair.nextStartSeq]
    cases hlast : c.qp.messages.getLast? with
    | none => exact h.sndNxt
    | some back => exact h.ends back (List.mem_of_getLast? hlast)
  have hgrow {n : Nat} (hn : n ≤ c.total) : n ≤ (c.push size srcDataPtr mscclFlowId).total := by
    omega
  refine ⟨?_, fun m hm => ?_, hgrow h.sndNxt, hgrow h.sndUna, fun p hp => hgrow (h.inTx p hp),
    fun p hp => hgrow (h.wire p hp), hgrow h.expected, fun a ha => hgrow (h.acks a ha)⟩
  · simp only [Connection.push, RdmaQueuePair.pushMessage]
    rw [← List.append_assoc, h.split]
  · simp only [Connection.push, RdmaQueuePair.pushMessage, List.mem_append,
      List.mem_singleton] at hm
    rcases hm with hm | rfl
    · exact hgrow (h.ends m hm)
    · have hmod : u64 (c.qp.nextStartSeq + size) ≤ c.qp.nextStartSeq + size := Nat.mod_le _ _
      show u64 (c.qp.nextStartSeq + size) ≤ _
      omega

theorem send {win : Nat} (h : WithinPushed c) (hsend : c.send hw win = some c') :
    WithinPushed c' ∧ c'.inTx ≠ none := by
  rw [Connection.send] at hsend
  by_cases hready : c.inTx = none ∧ 0 < c.qp.getBytesLeft ∧ c.qp.isWinBound win = false
  · rw [if_pos hready, Option.some_inj] at hsend
    obtain ⟨-, hleft, -⟩ := hready
    have hend : c.qp.sndNxt + min hw.mtu.toNat c.qp.getBytesLeft ≤ c.total := by
      rw [RdmaQueuePair.getBytesLeft] at hleft ⊢
      cases hmessages : c.qp.messages with
      | nil =>
          rw [hmessages] at hleft
          cases hleft
      | cons front rest =>
          have hfront := h.ends front (by rw [hmessages]; exact List.mem_cons_self)
          simp only
          split
          · omega
          · simpa using h.sndNxt
    subst hsend
    refine ⟨⟨h.split, h.ends, ?_, h.sndUna, fun p hp => ?_, h.wire, h.expected, h.acks⟩,
      Option.some_ne_none _⟩
    · exact Nat.le_trans (Nat.mod_le _ _) hend
    · obtain rfl := Option.some_inj.mp (Option.mem_def.mp hp)
      show (c.qp.getNxtPacket hw).1.seq + (c.qp.getNxtPacket hw).1.payload.length ≤ c.total
      simpa [RdmaQueuePair.getNxtPacket] using hend
  · rw [if_neg hready] at hsend
    cases hsend

theorem sent (h : WithinPushed c) (hsent : c.sent hw = some c') : WithinPushed c' := by
  obtain ⟨p, hp, rfl⟩ := Option.map_eq_some_iff.mp hsent
  have hend := h.inTx p hp
  have happend := RdmaQueuePair.sendPacketComplete_append hw p c.qp
  constructor
  · show c.finished ++ _ ++ _ = c.pushed
    rw [List.append_assoc, happend, h.split]
  · intro m hm
    apply h.ends m
    rw [← happend]
    exact List.mem_append_right _ hm
  · show (c.qp.sendPacketComplete hw p).2.sndNxt ≤ c.total
    rw [RdmaQueuePair.sendPacketComplete_sndNxt]
    exact h.sndNxt
  · have hle := RdmaQueuePair.sendPacketComplete_sndUna_le hw p c.qp
    exact Nat.le_trans hle (Nat.max_le.mpr ⟨h.sndUna, hend⟩)
  · intro p' hp'
    cases hp'
  · intro p' hp'
    rcases List.mem_append.mp hp' with hp' | hp'
    · exact h.wire p' hp'
    · rw [List.mem_singleton.mp hp']
      exact hend
  · exact h.expected
  · exact h.acks

theorem arrive {i now : Nat} (h : WithinPushed c) (harrive : c.arrive hw i now = some c') :
    WithinPushed c' ∧ c'.qp = c.qp ∧ c'.inTx = c.inTx ∧ c'.pushed = c.pushed ∧
      c'.finished = c.finished := by
  simp only [Connection.arrive, Option.bind_eq_bind, Option.pure_def, Option.bind_eq_some_iff,
    Option.some.injEq, Prod.exists] at harrive
  obtain ⟨p, hp, rxQp, handed, reply, hreceive, rfl⟩ := harrive
  have hend := h.wire p (List.mem_of_getElem? hp)
  have hreply : (∀ a ∈ reply, a.seq = rxQp.receiverNextExpectedSeq) ∧
      rxQp.receiverNextExpectedSeq ≤ c.total := by
    cases RdmaRxQueuePair.received hreceive with
    | inOrder hseq hnext htimer hlast hreply =>
        have hmod : u64 (c.rxQp.receiverNextExpectedSeq + p.payload.length) ≤
          c.rxQp.receiverNextExpectedSeq + p.payload.length := Nat.mod_le _ _
        refine ⟨fun a ha => ?_, by omega⟩
        rw [hreply a ha]
    | nack hseq hnack hnext htimer hlast =>
        have hback : c.rxQp.nackSeq hw ≤ c.rxQp.receiverNextExpectedSeq := by
          rw [RdmaRxQueuePair.nackSeq]
          split
          · exact Nat.div_mul_le_self _ _
          · exact Nat.le_refl _
        refine ⟨fun a ha => ?_, hnext ▸ Nat.le_trans hback h.expected⟩
        rw [List.mem_singleton.mp ha, hnext]
    | ignored hseq hsuppressed hnext htimer hlast =>
        refine ⟨fun a ha => ?_, hnext ▸ h.expected⟩
        cases ha
  refine ⟨⟨h.split, h.ends, h.sndNxt, h.sndUna, h.inTx, fun p' hp' => ?_, hreply.2, fun a ha => ?_⟩,
    rfl, rfl, rfl, rfl⟩
  · exact h.wire p' (List.mem_of_mem_eraseIdx hp')
  · rcases List.mem_append.mp ha with ha | ha
    · exact h.acks a ha
    · rw [hreply.1 a ha]
      exact hreply.2

theorem ackArrive {i : Nat} (h : WithinPushed c) (harrive : c.ackArrive hw i = some c') :
    WithinPushed c' := by
  simp only [Connection.ackArrive, Option.bind_eq_bind, Option.pure_def, Option.bind_eq_some_iff,
    Option.some.injEq, Prod.exists] at harrive
  obtain ⟨a, ha, fired, qp, hreceive, rfl⟩ := harrive
  have hseq := h.acks a (List.mem_of_getElem? ha)
  have happend := RdmaQueuePair.receiveAck_append hreceive
  have hsndUna : qp.sndUna ≤ c.total :=
    Nat.le_trans (RdmaQueuePair.receiveAck_sndUna_le hreceive) (Nat.max_le.mpr ⟨h.sndUna, hseq⟩)
  constructor
  · show c.finished ++ fired ++ qp.messages = c.pushed
    rw [List.append_assoc, happend, h.split]
  · intro m hm
    apply h.ends m
    rw [← happend]
    exact List.mem_append_right _ hm
  · exact Nat.le_trans (RdmaQueuePair.receiveAck_sndNxt_le hreceive)
      (Nat.max_le.mpr ⟨h.sndNxt, hsndUna⟩)
  · exact hsndUna
  · exact h.inTx
  · exact h.wire
  · exact h.expected
  · exact fun a' ha' => h.acks a' (List.mem_of_mem_eraseIdx ha')

end WithinPushed

theorem WithinPushed.step (h : WithinPushed c) {e : Event} (hstep : step hw c e = some c') :
    WithinPushed c' := by
  cases e with
  | push size srcDataPtr mscclFlowId =>
      cases hstep
      exact h.push _ _ _
  | send win => exact (h.send hstep).1
  | sent => exact h.sent hstep
  | drop i =>
      rw [Connection.step, Connection.drop, Option.ite_none_right_eq_some] at hstep
      obtain ⟨-, hc⟩ := hstep
      cases hc
      exact { h with wire := fun p hp => h.wire p (List.mem_of_mem_eraseIdx hp) }
  | arrive i now => exact (h.arrive hstep).1
  | dropAck i =>
      rw [Connection.step, Connection.dropAck, Option.ite_none_right_eq_some] at hstep
      obtain ⟨-, hc⟩ := hstep
      cases hc
      exact { h with acks := fun a ha => h.acks a (List.mem_of_mem_eraseIdx ha) }
  | ackArrive i => exact h.ackArrive hstep

/-- When all pushed bytes are acknowledged and the NIC is idle, no message is left and all finish
callbacks have fired. -/
def Drained (c : Connection) : Prop :=
  c.inTx = none → c.total ≤ c.qp.sndUna → c.qp.messages = [] ∧ c.finished = c.pushed

/-- A message of no bytes is pushed only while bytes are not acknowledged or the NIC transmits, and a
transmission outside no-ack mode does not end with a message queued and all bytes acknowledged. -/
def KeepsDrained (hw : RdmaHw) (c : Connection) : Event → Prop
  | .push size _ _ => size.toNat = 0 → c.inTx = none → c.qp.sndUna < c.total
  | .sent =>
      c.qp.messages ≠ [] → hw.ackInterval ≠ 0 ∨ c.qp.closed = true → c.qp.sndUna < c.total
  | _ => True

theorem drained_of_unfinished (h : WithinPushed c) (hqp : c.qp.Unfinished) : Drained c := by
  intro _ hacked
  cases hmessages : c.qp.messages with
  | nil =>
      refine ⟨rfl, ?_⟩
      rw [← h.split, hmessages, List.append_nil]
  | cons front rest =>
      have hfront := hqp front (by rw [hmessages]; rfl)
      have hend := h.ends front (by rw [hmessages]; exact List.mem_cons_self)
      omega

theorem drained_congr (hinTx : c'.inTx = c.inTx) (hmessages : c'.qp.messages = c.qp.messages)
    (hsndUna : c'.qp.sndUna = c.qp.sndUna) (hpushed : c'.pushed = c.pushed)
    (hfinished : c'.finished = c.finished) : Drained c' ↔ Drained c := by
  rw [Drained, Drained, hinTx, hmessages, hsndUna, total, total, hpushed, hfinished]

theorem drained_push_iff (h : WithinPushed c) (size : Nat) (srcDataPtr : Option (Int → UInt8))
    (mscclFlowId : Nat) : Drained (c.push size srcDataPtr mscclFlowId) ↔
      (size = 0 → c.inTx = none → c.qp.sndUna < c.total) := by
  have htotal : (c.push size srcDataPtr mscclFlowId).total = c.total + size := by
    simp [total, Connection.push]
  have hsndUna := h.sndUna
  rw [Drained, htotal]
  simp only [Connection.push, RdmaQueuePair.pushMessage, List.append_eq_nil_iff,
    List.cons_ne_nil, and_false, false_and]
  constructor
  · intro hnone hzero hidle
    by_contra hacked
    exact hnone hidle (by omega)
  · intro hok hidle hacked
    have hlt := hok (by omega) hidle
    omega

theorem drained_sent_iff (h : WithinPushed c) (hsent : c.sent hw = some c') :
    Drained c' ↔ (c.qp.messages ≠ [] → hw.ackInterval ≠ 0 ∨ c.qp.closed = true →
      c.qp.sndUna < c.total) := by
  have h' := h.sent hsent
  obtain ⟨p, hp, rfl⟩ := Option.map_eq_some_iff.mp hsent
  rcases RdmaQueuePair.sendPacketComplete_cases hw p c.qp with ⟨hoff, hsame⟩ | ⟨hon, hunfinished⟩
  · simp only [Drained, hsame, List.append_nil, true_implies, hoff]
    show (c.total ≤ c.qp.sndUna → _) ↔ _
    constructor
    · intro hdrained hne
      by_contra hacked
      exact hne (hdrained (Nat.le_of_not_lt hacked)).1
    · intro hok hacked
      have hempty : c.qp.messages = [] := by
        by_contra hne
        exact absurd (hok hne) (Nat.not_lt.mpr hacked)
      refine ⟨hempty, ?_⟩
      rw [← h.split, hempty, List.append_nil]
  · exact iff_of_true (drained_of_unfinished h' hunfinished) fun _ hoff => absurd hoff hon

theorem drained_step_iff (h : WithinPushed c) (hdrained : Drained c) {e : Event}
    (hstep : step hw c e = some c') : Drained c' ↔ KeepsDrained hw c e := by
  have h' := h.step hstep
  cases e with
  | push size srcDataPtr mscclFlowId =>
      cases hstep
      exact drained_push_iff h _ _ _
  | send win =>
      apply iff_of_true _ trivial
      intro hidle
      exact absurd hidle (h.send hstep).2
  | sent => exact drained_sent_iff h hstep
  | drop i =>
      rw [Connection.step, Connection.drop, Option.ite_none_right_eq_some] at hstep
      obtain ⟨-, hc⟩ := hstep
      cases hc
      exact iff_of_true hdrained trivial
  | arrive i now =>
      obtain ⟨-, hqp, hinTx, hpushed, hfinished⟩ := h.arrive hstep
      have hsame := drained_congr hinTx (by rw [hqp]) (by rw [hqp]) hpushed hfinished
      exact iff_of_true (hsame.mpr hdrained) trivial
  | dropAck i =>
      rw [Connection.step, Connection.dropAck, Option.ite_none_right_eq_some] at hstep
      obtain ⟨-, hc⟩ := hstep
      cases hc
      exact iff_of_true hdrained trivial
  | ackArrive i =>
      apply iff_of_true _ trivial
      simp only [Connection.step, Connection.ackArrive, Option.bind_eq_bind, Option.pure_def,
        Option.bind_eq_some_iff, Option.some.injEq, Prod.exists] at hstep
      obtain ⟨a, ha, fired, qp, hreceive, rfl⟩ := hstep
      rcases RdmaQueuePair.receiveAck_unfinished hreceive with ⟨hmessages, hsndUna, rfl⟩ | hqp
      · apply (drained_congr _ _ _ _ _).mpr hdrained
        · rfl
        · exact hmessages
        · exact hsndUna
        · rfl
        · exact List.append_nil _
      · exact drained_of_unfinished h' hqp

/-- In the runs whose steps meet the condition, and in no others, no message is ever left behind. -/
theorem run_drained_iff {autoClose : Bool} {mscclFlowId : Nat} {es : List Event}
    (hrun : Run (step hw) anyEvent (initial autoClose mscclFlowId) es c) :
    (∀ bs cs u, es = bs ++ cs →
        Run (step hw) anyEvent (initial autoClose mscclFlowId) bs u → Drained u) ↔
      Run (step hw) (KeepsDrained hw) (initial autoClose mscclFlowId) es c := by
  refine Run.guarded_iff (P := Drained) (I := fun c => WithinPushed c ∧ Drained c)
    (fun c hc => hc.2) ?_ ?_ hrun ?_
  · intro c e c' hc hok hstep
    exact ⟨hc.1.step hstep, (drained_step_iff hc.1 hc.2 hstep).mpr hok⟩
  · intro c e c' hc hnot hstep hdrained
    exact hnot ((drained_step_iff hc.1 hc.2 hstep).mp hdrained)
  · exact ⟨withinPushed_initial autoClose mscclFlowId, fun _ _ => ⟨rfl, rfl⟩⟩

end Connection

end CollectiveSim.Rdma
