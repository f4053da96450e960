import Mathlib
import CollectiveSim.Framework.Run
import CollectiveSim.Rdma.InFlight
import CollectiveSim.Rdma.Sender

/-!
# Completion by acknowledgements

Where nothing is lost or overtaken, a message is finished by the ACK for its last byte. The receiver
sends that ACK only at a multiple of the chunk size or once the acknowledged bytes reach the interval,
and with `L2BackToZero` the sender rounds it down.
-/

namespace CollectiveSim.Rdma.Connection

open Framework

/-- A message whose bytes have all been received is finished when no ACK is under way. -/
def FinishedWhenReceived (c : Connection) : Prop :=
  ∀ front rest, c.qp.messages = front :: rest → c.acks = [] →
    c.rxQp.receiverNextExpectedSeq < front.startSeq + front.size

/-- Packets and ACKs are delivered in order and none is lost, and messages are pushed on an open queue
pair. -/
def InOrder (c : Connection) : Event → Prop
  | .push _ _ _ => c.qp.closed = false
  | .drop _ => False
  | .arrive i _ => i = 0
  | .dropAck _ => False
  | .ackArrive i => i = 0
  | _ => True

instance (c : Connection) : (e : Event) → Decidable (InOrder c e)
  | .push _ _ _ | .arrive _ _ | .ackArrive _ => inferInstanceAs (Decidable (_ = _))
  | .drop _ | .dropAck _ => .isFalse id
  | .send _ | .sent => .isTrue trivial

/-- The packet that ends at byte `n` is answered with an ACK that the sender counts up to `n`. -/
def AcksEnd (hw : RdmaHw) (n : Nat) : Prop :=
  n % hw.chunk.toNat = 0 ∨ (hw.backto0 = false ∧ toU64 (i32 hw.ackInterval.toNat) ≤ n)

/-- The end of every message is acknowledged, and a message pushed onto an empty queue has bytes. -/
def EndsAcked (hw : RdmaHw) (c : Connection) : Event → Prop
  | .push size _ _ => (c.qp.messages = [] → size ≠ 0) ∧
      AcksEnd hw ((c.pushed.map RdmaMessage.size).sum + size.toNat) ∧
      (c.pushed.map RdmaMessage.size).sum + size.toNat < 2 ^ 64
  | _ => True

instance (hw : RdmaHw) (n : Nat) : Decidable (AcksEnd hw n) := by
  unfold AcksEnd
  infer_instance

instance (hw : RdmaHw) (c : Connection) : (e : Event) → Decidable (EndsAcked hw c e)
  | .push _ _ _ => inferInstanceAs (Decidable ((_ → _) ∧ AcksEnd _ _ ∧ _ < _))
  | .send _ | .sent | .drop _ | .arrive _ _ | .dropAck _ | .ackArrive _ => .isTrue trivial

/-- The expected packet is handed over, and answered at a milestone or a multiple of the chunk size. -/
theorem receiveUdp_expected {hw : RdmaHw} (hack : hw.ackInterval ≠ 0) (hchunk : hw.chunk ≠ 0)
    (now : Nat) {p : DataPacket} {q : RdmaRxQueuePair} (hseq : p.seq = q.receiverNextExpectedSeq) :
    ∃ q', q.receiveUdp hw now p = some (q', p.payload,
        if toU64 (i32 hw.ackInterval.toNat) ≤ q'.receiverNextExpectedSeq ∨
            q'.receiverNextExpectedSeq % hw.chunk.toNat = 0 then
          [⟨false, q'.receiverNextExpectedSeq⟩]
        else []) ∧
      q'.receiverNextExpectedSeq = u64 (q.receiverNextExpectedSeq + p.payload.length) := by
  simp only [RdmaRxQueuePair.receiveUdp, RdmaRxQueuePair.receiverCheckSeq, hseq, if_true, hack,
    if_false, hchunk]
  by_cases hmilestone : toU64 (i32 hw.ackInterval.toNat) ≤
      u64 (q.receiverNextExpectedSeq + p.payload.length)
  · rw [if_pos hmilestone]
    exact ⟨{ q with
      receiverNextExpectedSeq := u64 (q.receiverNextExpectedSeq + p.payload.length)
      milestoneRx := i32 (i32 hw.ackInterval.toNat + hw.ackInterval.toNat) }, by simp [hmilestone], rfl⟩
  · rw [if_neg hmilestone]
    by_cases hmultiple : u64 (q.receiverNextExpectedSeq + p.payload.length) % hw.chunk.toNat = 0
    · rw [if_pos hmultiple]
      exact ⟨{ q with
        receiverNextExpectedSeq := u64 (q.receiverNextExpectedSeq + p.payload.length)
        milestoneRx := i32 hw.ackInterval.toNat }, by simp [hmultiple], rfl⟩
    · rw [if_neg hmultiple]
      exact ⟨{ q with
        receiverNextExpectedSeq := u64 (q.receiverNextExpectedSeq + p.payload.length)
        milestoneRx := i32 hw.ackInterval.toNat }, by simp [hmilestone, hmultiple], rfl⟩

/-- The ACK for the end of a fully received message is under way. -/
structure Completing (hw : RdmaHw) (c : Connection) : Prop where
  inFlight : InFlight c
  ends : ∀ done m rest, c.pushed = done ++ m :: rest →
    AcksEnd hw (stream (done ++ [m])).length
  closed : c.qp.closed = true → c.qp.messages = []
  sndUna_le : c.qp.sndUna ≤ c.rxQp.receiverNextExpectedSeq
  acks : ∀ a ∈ c.acks, a.nack = false ∧ a.seq ≤ c.rxQp.receiverNextExpectedSeq
  front_lt : ∀ front rest, c.qp.messages = front :: rest →
    c.qp.sndUna < front.startSeq + front.size
  acked : ∀ front rest, c.qp.messages = front :: rest →
    front.startSeq + front.size ≤ c.rxQp.receiverNextExpectedSeq →
      ∃ a ∈ c.acks, a.seq = front.startSeq + front.size

namespace Completing

variable {hw : RdmaHw} {c c' : Connection}

theorem initial (autoClose : Bool) (mscclFlowId : Nat) :
    Completing hw (Connection.initial autoClose mscclFlowId) where
  inFlight := ⟨⟨rfl, trivial, Nat.two_pow_pos 64, Nat.le_refl _⟩, rfl, Nat.le_refl _, Nat.le_refl _⟩
  ends := by intro done m rest h; exact absurd h (by simp [Connection.initial])
  closed := by intro _; rfl
  sndUna_le := Nat.le_refl _
  acks := by intro a ha; cases ha
  front_lt := by intro front rest h; cases h
  acked := by intro front rest h; cases h

theorem finishedWhenReceived (h : Completing hw c) : FinishedWhenReceived c := by
  intro front rest hmessages hacks
  by_contra hnot
  obtain ⟨a, ha, -⟩ := h.acked front rest hmessages (Nat.not_lt.mp hnot)
  rw [hacks] at ha
  cases ha

theorem end_acked (h : Completing hw c) {front : RdmaMessage} {rest : List RdmaMessage}
    (hmessages : c.qp.messages = front :: rest) : AcksEnd hw (front.startSeq + front.size) := by
  have hsplit := h.inFlight.accounted.split
  rw [hmessages] at hsplit
  have hend := h.ends c.finished front rest hsplit.symm
  rw [(h.inFlight.front_end hmessages).1]
  simpa using hend

theorem push (h : Completing hw c) {size : Nat} (srcDataPtr : Option (Int → UInt8))
    (mscclFlowId : Nat) (hopen : c.qp.closed = false) (hempty : c.qp.messages = [] → 0 < size)
    (hend : AcksEnd hw ((c.pushed.map RdmaMessage.size).sum + size))
    (hfits : (c.pushed.map RdmaMessage.size).sum + size < 2 ^ 64) :
    Completing hw (c.push size srcDataPtr mscclFlowId) := by
  have hflight := h.inFlight.push size srcDataPtr mscclFlowId hfits
  -- the front message stays, or is the new one, which starts where everything is received
  have hfront : ∀ front rest, (c.push size srcDataPtr mscclFlowId).qp.messages = front :: rest →
      (∃ others, c.qp.messages = front :: others) ∨
        (c.rxQp.receiverNextExpectedSeq < front.startSeq + front.size) := by
    intro front rest hmessages
    have hstart := (hflight.front_end hmessages).1
    simp only [Connection.push, RdmaQueuePair.pushMessage] at hmessages hstart
    cases hold : c.qp.messages with
    | nil =>
        rw [hold] at hmessages
        cases hmessages
        have hpos := hempty hold
        have hnext := h.inFlight.next_le
        have hsplit := h.inFlight.accounted.split
        rw [hold, List.append_nil] at hsplit
        rw [hsplit] at hstart
        refine Or.inr ?_
        change c.rxQp.receiverNextExpectedSeq < c.qp.nextStartSeq + size
        have hstart : c.qp.nextStartSeq = (stream c.pushed).length := hstart
        omega
    | cons front' others =>
        rw [hold] at hmessages
        cases hmessages
        exact Or.inl ⟨others, rfl⟩
  refine ⟨hflight, ?_, ?_, h.sndUna_le, h.acks, ?_, ?_⟩
  · intro done m rest hpushed
    simp only [Connection.push] at hpushed
    rcases List.eq_nil_or_concat rest with hnil | ⟨rest', last, hconcat⟩
    · rw [hnil] at hpushed
      rw [← hpushed, stream_length, List.map_append, List.sum_append]
      simpa using hend
    · rw [hconcat, List.concat_eq_append, ← List.cons_append, ← List.append_assoc] at hpushed
      exact h.ends done m rest' (List.append_inj_left' hpushed rfl)
  · intro hclosed
    exact absurd hclosed (by rw [Connection.push]; exact Bool.eq_false_iff.mp hopen)
  · intro front rest hmessages
    rcases hfront front rest hmessages with ⟨others, hold⟩ | hlt
    · exact h.front_lt front others hold
    · exact Nat.lt_of_le_of_lt h.sndUna_le hlt
  · intro front rest hmessages hreceived
    rcases hfront front rest hmessages with ⟨others, hold⟩ | hlt
    · exact h.acked front others hold hreceived
    · exact absurd hreceived (Nat.not_le.mpr hlt)

theorem send (h : Completing hw c) {win : Nat} (hsend : c.send hw win = some c') :
    Completing hw c' := by
  have hflight := h.inFlight.send hsend
  obtain ⟨-, -, rfl⟩ := InFlight.send_cases hsend
  exact ⟨hflight, h.ends, h.closed, h.sndUna_le, h.acks, h.front_lt, h.acked⟩

theorem sent (h : Completing hw c) (hack : hw.ackInterval ≠ 0) (hsent : c.sent hw = some c') :
    Completing hw c' := by
  obtain ⟨p, htx, rfl⟩ := Option.map_eq_some_iff.mp hsent
  have hchain := h.inFlight.chain
  rw [htx, Option.toList_some] at hchain
  simp only [RdmaQueuePair.sendPacketComplete_of_ackInterval hack, List.append_nil]
  refine ⟨⟨h.inFlight.accounted, ?_, h.inFlight.sndUna_le, h.inFlight.sndNxt_le⟩, h.ends, h.closed,
    h.sndUna_le, h.acks, h.front_lt, h.acked⟩
  simpa using hchain

theorem arrive (h : Completing hw c) (hack : hw.ackInterval ≠ 0) (hchunk : hw.chunk ≠ 0) {now : Nat}
    (harrive : c.arrive hw 0 now = some c') : Completing hw c' := by
  simp only [Connection.arrive, Option.bind_eq_bind, Option.pure_def, Option.bind_eq_some_iff,
    Option.some.injEq, Prod.exists] at harrive
  obtain ⟨p, hp, rxQp, handed, reply, hrecv, rfl⟩ := harrive
  cases hwire : c.wire with
  | nil =>
      rw [hwire] at hp
      cases hp
  | cons q rest =>
      rw [hwire] at hp
      cases hp
      have hchain := h.inFlight.chain
      rw [hwire] at hchain
      obtain ⟨hseq, hslice, hrest⟩ := hchain
      obtain ⟨q', hexpected, hnext⟩ := receiveUdp_expected hack hchunk now hseq
      rw [hexpected] at hrecv
      obtain ⟨rfl, -, hreply⟩ : q' = rxQp ∧ _ ∧ _ := by simpa using hrecv
      have hend := hslice.end_le
      have hfits := h.inFlight.accounted.fits
      rw [u64_of_lt (by omega)] at hnext
      have hgrows : c.rxQp.receiverNextExpectedSeq ≤ q'.receiverNextExpectedSeq := by omega
      refine ⟨⟨h.inFlight.accounted, ?_, h.inFlight.sndUna_le, h.inFlight.sndNxt_le⟩, h.ends, h.closed,
        Nat.le_trans h.sndUna_le hgrows, ?_, h.front_lt, ?_⟩
      · simpa [hnext] using hrest
      · intro a ha
        rcases List.mem_append.mp ha with ha | ha
        · exact ⟨(h.acks a ha).1, Nat.le_trans (h.acks a ha).2 hgrows⟩
        · rw [← hreply] at ha
          split at ha
          · rw [List.mem_singleton.mp ha]
            exact ⟨rfl, Nat.le_refl _⟩
          · cases ha
      · intro front others hmessages hreceived
        by_cases hbefore : front.startSeq + front.size ≤ c.rxQp.receiverNextExpectedSeq
        · obtain ⟨a, ha, haseq⟩ := h.acked front others hmessages hbefore
          exact ⟨a, List.mem_append_left _ ha, haseq⟩
        · -- this packet ends the message, because nothing behind the message is in flight
          have hupper := (h.inFlight.front_end hmessages).2.1
          have hle := hrest.le
          have hreceived : front.startSeq + front.size ≤ q'.receiverNextExpectedSeq := hreceived
          have hlast : q'.receiverNextExpectedSeq = front.startSeq + front.size := by omega
          have hanswered : toU64 (i32 hw.ackInterval.toNat) ≤ q'.receiverNextExpectedSeq ∨
              q'.receiverNextExpectedSeq % hw.chunk.toNat = 0 := by
            rw [hlast]
            rcases h.end_acked hmessages with hmultiple | ⟨-, hmilestone⟩
            · exact Or.inr hmultiple
            · exact Or.inl hmilestone
          refine ⟨⟨false, q'.receiverNextExpectedSeq⟩, ?_, hlast⟩
          rw [← hreply, if_pos hanswered]
          simp

theorem acknowledgedSeq_of_acksEnd {n : Nat} (h : AcksEnd hw n) :
    RdmaQueuePair.acknowledgedSeq hw n = n := by
  rw [RdmaQueuePair.acknowledgedSeq]
  rcases h with hmultiple | ⟨hb, -⟩
  · by_cases hb : hw.backto0 = true
    · rw [if_pos hb]
      exact Nat.div_mul_cancel (Nat.dvd_of_mod_eq_zero hmultiple)
    · rw [if_neg hb]
  · rw [hb, if_neg Bool.false_ne_true]

theorem acked_others (h : Completing hw c) {a : AckPacket} {others : List AckPacket}
    (hacks : c.acks = a :: others) {sndUna : Nat}
    (hsndUna : sndUna = max c.qp.sndUna (RdmaQueuePair.acknowledgedSeq hw a.seq))
    {fired messages rest : List RdmaMessage} {front : RdmaMessage}
    (hloop : RdmaQueuePair.completeMessages sndUna c.qp.messages = (fired, messages))
    (hmessages : messages = front :: rest)
    (hlt : sndUna < front.startSeq + front.size)
    (hreceived : front.startSeq + front.size ≤ c.rxQp.receiverNextExpectedSeq) :
    ∃ b ∈ others, b.seq = front.startSeq + front.size := by
  have hsplit := RdmaQueuePair.completeMessages_append sndUna c.qp.messages
  rw [hloop] at hsplit
  cases hfired : fired with
  | nil =>
      -- the front message is the same, and its ACK is not this one
      rw [hfired] at hsplit
      have hold : c.qp.messages = front :: rest := hsplit.symm.trans hmessages
      obtain ⟨b, hb, hbseq⟩ := h.acked front rest hold hreceived
      rw [hacks] at hb
      rcases List.mem_cons.mp hb with hb | hb
      · rw [← hb, hbseq, acknowledgedSeq_of_acksEnd (h.end_acked hold)] at hsndUna
        omega
      · exact ⟨b, hb, hbseq⟩
  | cons old olds =>
      -- a message that became finished ends at or above everything received
      rw [hfired, List.cons_append] at hsplit
      obtain ⟨-, hupper, -, hfits⟩ := h.inFlight.front_end hsplit.symm
      have hdone : u64 (old.startSeq + old.size) ≤ sndUna := by
        by_contra hnot
        rw [← hsplit, RdmaQueuePair.completeMessages, if_neg hnot, hfired] at hloop
        cases congrArg Prod.fst hloop
      rw [u64_of_lt hfits] at hdone
      have hflight := h.inFlight.chain.le
      omega

theorem ackArrive (h : Completing hw c) (hack : hw.ackInterval ≠ 0)
    (hackArrive : c.ackArrive hw 0 = some c') : Completing hw c' := by
  simp only [Connection.ackArrive, Option.bind_eq_bind, Option.pure_def, Option.bind_eq_some_iff,
    Option.some.injEq, Prod.exists] at hackArrive
  obtain ⟨a, ha, fired, qp, hrecv, rfl⟩ := hackArrive
  cases hacks : c.acks with
  | nil =>
      rw [hacks] at ha
      cases ha
  | cons b others =>
      rw [hacks] at ha
      cases ha
      obtain ⟨hnack, hseq⟩ := h.acks a (by rw [hacks]; exact List.mem_cons_self)
      have hothers : ∀ b ∈ others, b.nack = false ∧ b.seq ≤ c.rxQp.receiverNextExpectedSeq :=
        fun b hb => h.acks b (by rw [hacks]; exact List.mem_cons_of_mem _ hb)
      have haccounted := h.inFlight.accounted.receiveAck hrecv
      have hbound := RdmaQueuePair.receiveAck_sndUna_le hrecv
      have hflight := h.inFlight.chain.le
      have huna := h.sndUna_le
      rcases RdmaQueuePair.receiveAck_acknowledged hack hnack hrecv with
        ⟨hclosed, rfl, rfl⟩ | ⟨hsndUna, hsndNxt, hloop, hcloses⟩
      · have hempty := h.closed hclosed
        refine ⟨⟨haccounted, h.inFlight.chain, h.inFlight.sndUna_le, ?_⟩, h.ends, h.closed, h.sndUna_le,
          ?_, h.front_lt, ?_⟩
        · simpa using h.inFlight.sndNxt_le
        · simpa using hothers
        · intro front rest hmessages
          rw [hempty] at hmessages
          cases hmessages
      · have hfront : ∀ front rest, qp.messages = front :: rest →
            qp.sndUna < front.startSeq + front.size ∧ front.startSeq + front.size ≤
              (stream c.pushed).length := by
          intro front rest hmessages
          have hacc := haccounted
          rw [hmessages] at hacc
          have hlt := RdmaQueuePair.completeMessages_front hloop hmessages
          rw [u64_of_lt (Nat.lt_of_le_of_lt hacc.front_end hacc.fits)] at hlt
          exact ⟨hlt, hacc.front_end⟩
        refine ⟨⟨haccounted, ?_, ?_, ?_⟩, h.ends, ?_, ?_, ?_, ?_, ?_⟩
        · simpa only [hsndNxt] using h.inFlight.chain
        · simp only [hsndNxt]
          omega
        · have hhead := RdmaQueuePair.completeMessages_head_le qp.sndUna c.finished c.qp.messages
          rw [hloop] at hhead
          simp only [hsndNxt]
          exact Nat.le_trans h.inFlight.sndNxt_le hhead
        · intro hclosed
          rcases hcloses hclosed with hbefore | hempty
          · rw [h.closed hbefore, RdmaQueuePair.completeMessages] at hloop
            exact (congrArg Prod.snd hloop).symm
          · exact hempty
        · simp only
          omega
        · simpa using hothers
        · intro front rest hmessages
          exact (hfront front rest hmessages).1
        · intro front rest hmessages hreceived
          have hreceived : front.startSeq + front.size ≤ c.rxQp.receiverNextExpectedSeq := hreceived
          have hlt := (hfront front rest hmessages).1
          simpa using h.acked_others hacks hsndUna hloop hmessages hlt hreceived

theorem step (hack : hw.ackInterval ≠ 0) (hchunk : hw.chunk ≠ 0) (c : Connection) (e : Event)
    (c' : Connection) (h : Completing hw c) (hok : InOrder c e ∧ EndsAcked hw c e)
    (hstep : c.step hw e = some c') : Completing hw c' := by
  obtain ⟨horder, hends⟩ := hok
  cases e with
  | push size srcDataPtr mscclFlowId =>
      cases hstep
      obtain ⟨hempty, hend, hfits⟩ := hends
      apply h.push _ _ horder _ hend hfits
      intro hnil
      apply Nat.pos_of_ne_zero
      intro hzero
      exact hempty hnil (UInt64.toNat_inj.mp hzero)
  | send win => exact h.send hstep
  | sent => exact h.sent hack hstep
  | drop i => exact absurd horder id
  | arrive i now =>
      have hfirst : i = 0 := horder
      rw [hfirst] at hstep
      exact h.arrive hack hchunk hstep
  | dropAck i => exact absurd horder id
  | ackArrive i =>
      have hfirst : i = 0 := horder
      rw [hfirst] at hstep
      exact h.ackArrive hack hstep

end Completing

/-- In every orderly run in which the ends of all messages are acknowledged, a message whose bytes have
been received is finished once the ACKs are processed. -/
theorem run_finishedWhenReceived (hw : RdmaHw) (hack : hw.ackInterval ≠ 0) (hchunk : hw.chunk ≠ 0)
    (autoClose : Bool) (mscclFlowId : Nat) (es : List Event) (c : Connection)
    (hrun : Run (step hw) (fun c e => InOrder c e ∧ EndsAcked hw c e) (initial autoClose mscclFlowId)
      es c) : FinishedWhenReceived c :=
  (hrun.invariant (Completing.step hack hchunk)
    (Completing.initial autoClose mscclFlowId)).finishedWhenReceived

/-- Two bytes per packet, an ACK at every fourth byte of the stream. -/
def chunkHw (backto0 : Bool) : RdmaHw := ⟨2, 100, 4, backto0, 10⟩

/-- The whole first message is received and acknowledged, and a packet of the second one. -/
def fourThenEight : List Event :=
  [.push 4 (some fun _ => 5) 1, .push 4 (some fun _ => 6) 2, .send 0, .sent, .send 0, .sent,
   .arrive 0 1, .arrive 0 2, .ackArrive 0, .send 0, .sent, .arrive 0 3]

theorem fourThenEight_finishedWhenReceived :
    (chunkHw true).ackInterval ≠ 0 ∧ (chunkHw true).chunk ≠ 0 ∧
      ∃ c, Run (step (chunkHw true)) (fun c e => InOrder c e ∧ EndsAcked (chunkHw true) c e)
          (initial false 0) fourThenEight c ∧
        (c.finished.length = 1 ∧ c.acks = [] ∧ c.qp.messages.length = 1) ∧ FinishedWhenReceived c := by
  have hack : (chunkHw true).ackInterval ≠ 0 := by decide
  have hchunk : (chunkHw true).chunk ≠ 0 := by decide
  obtain ⟨c, hrun, hc⟩ := exists_run (step (chunkHw true))
    (fun c e => InOrder c e ∧ EndsAcked (chunkHw true) c e)
    (fun c => c.finished.length = 1 ∧ c.acks = [] ∧ c.qp.messages.length = 1)
    (initial false 0) fourThenEight (by decide +kernel)
  exact ⟨hack, hchunk, c, hrun, hc, run_finishedWhenReceived _ hack hchunk false 0 _ c hrun⟩

/-- A message of two bytes is received and never acknowledged. -/
theorem not_finishedWhenReceived :
    ¬ ∀ (hw : RdmaHw), hw.ackInterval ≠ 0 → hw.chunk ≠ 0 → ∀ (autoClose : Bool) (mscclFlowId : Nat)
      (es : List Event) (c : Connection),
      Run (step hw) InOrder (initial autoClose mscclFlowId) es c → FinishedWhenReceived c := by
  intro hall
  obtain ⟨c, hrun, hone, hacks, hend, hnext⟩ := exists_run (step (chunkHw false)) InOrder
    (fun c => c.qp.messages.length = 1 ∧ c.acks = [] ∧
      c.qp.messages.map (fun m => m.startSeq + m.size) = [2] ∧ c.rxQp.receiverNextExpectedSeq = 2)
    (initial false 0) [.push 2 (some fun _ => 5) 1, .send 0, .sent, .arrive 0 1] (by decide +kernel)
  obtain ⟨front, hfront⟩ := List.length_eq_one_iff.mp hone
  have hlt := hall (chunkHw false) (by decide) (by decide) false 0 _ c hrun front [] hfront hacks
  rw [hfront] at hend
  have hend : front.startSeq + front.size = 2 := by simpa using hend
  omega

end CollectiveSim.Rdma.Connection
