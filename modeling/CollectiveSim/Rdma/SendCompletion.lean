import Mathlib
import CollectiveSim.Framework.Run
import CollectiveSim.Rdma.Sender

/-!
# Completion without acknowledgements

With `L2AckInterval = 0` the sender takes the end of a transmission for an acknowledgement. The
sequence number it reads back from the packet has 32 bits.
-/

namespace CollectiveSim.Rdma

open Framework

/-- The packet carries byte `i` of the stream. -/
def DataPacket.Carries (p : DataPacket) (i : Nat) : Prop := p.seq ≤ i ∧ i < p.seq + p.payload.length

namespace Sender

/-- The finished messages are the first of the pushed ones, and a message is finished exactly when a
packet with the last byte up to its end has been transmitted. -/
structure FinishedWhenSent (c : Sender) : Prop where
  order : c.finished <+: c.pushed
  finished_iff : ∀ done m rest, c.pushed = done ++ m :: rest →
    (done.length < c.finished.length ↔
      ∃ p ∈ c.transmitted, p.Carries ((stream (done ++ [m])).length - 1))

/-- A push keeps the stream below `2 ^ 32`, and onto an empty queue it brings bytes and finds nothing
sent back. -/
def Short (c : Sender) : Event → Prop
  | .push size _ _ => (c.pushed.map RdmaMessage.size).sum + size.toNat < 2 ^ 32 ∧
      (c.qp.messages = [] → size ≠ 0 ∧ c.qp.sndUna ≤ c.qp.sndNxt)
  | _ => True

instance (c : Sender) : (e : Event) → Decidable (Short c e)
  | .push _ _ _ => inferInstanceAs (Decidable (_ < _ ∧ (_ → _ ≠ _ ∧ _ ≤ _)))
  | .send _ | .sent | .ack _ => .isTrue trivial

/-- All bytes below `n` are carried by these packets. -/
def Covered (ps : List DataPacket) (n : Nat) : Prop := ∀ i < n, ∃ p ∈ ps, p.Carries i

/-- Everything below `snd_una` has been transmitted and nothing above, and what has been transmitted
is finished. -/
structure Streamed (c : Sender) : Prop where
  tracked : Tracked c
  persistent : c.qp.autoClose = false ∧ c.qp.closed = false
  short : (stream c.pushed).length < 2 ^ 32
  first_pos : ∀ m rest, c.pushed = m :: rest → 0 < m.size
  front_lt : ∀ front rest, c.qp.messages = front :: rest →
    c.qp.sndUna < front.startSeq + front.size
  sndNxt_covered : Covered (c.transmitted ++ c.inTx.toList) c.qp.sndNxt
  sndUna_covered : Covered c.transmitted c.qp.sndUna
  inTx_covered : ∀ p ∈ c.inTx, Covered c.transmitted p.seq
  transmitted_le : ∀ p ∈ c.transmitted, p.seq + p.payload.length ≤ c.qp.sndUna

namespace Streamed

variable {c c' : Sender} {hw : RdmaHw}

theorem initial (mscclFlowId : Nat) : Streamed (Sender.initial false mscclFlowId) where
  tracked := .initial false mscclFlowId
  persistent := ⟨rfl, rfl⟩
  short := Nat.two_pow_pos 32
  first_pos := by intro m rest h; cases h
  front_lt := by intro front rest h; cases h
  sndNxt_covered := by intro i hi; exact absurd hi (Nat.not_lt_zero i)
  sndUna_covered := by intro i hi; exact absurd hi (Nat.not_lt_zero i)
  inTx_covered := by intro p hp; cases hp
  transmitted_le := by intro p hp; cases hp

theorem finishedWhenSent (h : Streamed c) : FinishedWhenSent c where
  order := h.tracked.accounted.finished_prefix
  finished_iff := by
    intro done m rest hpushed
    have hsplit := h.tracked.accounted.split
    have hlayout := h.tracked.accounted.contiguous
    have hpos : 0 < (stream (done ++ [m])).length := by
      cases done with
      | nil =>
          have hm := h.first_pos m rest hpushed
          simpa using hm
      | cons first done =>
          have hfirst := h.first_pos first (done ++ m :: rest) hpushed
          simp only [List.cons_append, stream_cons, List.length_append, RdmaMessage.bytes_length]
          omega
    constructor
    · intro hlt
      have hfront : done ++ [m] <+: c.pushed := ⟨rest, by rw [hpushed]; simp⟩
      have hinit : done ++ [m] <+: c.finished :=
        List.prefix_of_prefix_length_le hfront h.tracked.accounted.finished_prefix (by simpa using hlt)
      obtain ⟨more, hmore⟩ := hinit
      have hle := h.tracked.accounted.finished_le
      rw [← hmore, stream_append, List.length_append] at hle
      exact h.sndUna_covered _ (by omega)
    · rintro ⟨p, hp, -, hend⟩
      have hle := h.transmitted_le p hp
      by_contra hnot
      have hfront : done <+: c.pushed := ⟨m :: rest, hpushed.symm⟩
      have hinit : c.finished <+: done :=
        List.prefix_of_prefix_length_le h.tracked.accounted.finished_prefix hfront (Nat.not_lt.mp hnot)
      obtain ⟨between, hbetween⟩ := hinit
      have hmessages : c.qp.messages = between ++ m :: rest := by
        have hboth : c.finished ++ c.qp.messages = c.finished ++ (between ++ m :: rest) := by
          rw [hsplit, hpushed, ← hbetween, List.append_assoc]
        exact List.append_cancel_left hboth
      -- the front message ends at or before the end of this one
      have hbefore : ∀ front others, c.qp.messages = front :: others →
          front.startSeq + front.size ≤ (stream (done ++ [m])).length := by
        intro front others hfront
        obtain ⟨hstart, -, -, -⟩ := h.tracked.front_end hfront
        rw [hstart, ← hbetween]
        cases between with
        | nil =>
            rw [hmessages] at hfront
            cases hfront
            simp
        | cons b bs =>
            rw [hmessages] at hfront
            cases hfront
            simp only [stream_append, stream_cons, List.length_append, RdmaMessage.bytes_length]
            omega
      cases hfront : c.qp.messages with
      | nil =>
          rw [hfront] at hmessages
          exact absurd hmessages.symm (by simp)
      | cons front others =>
          have hlt := h.front_lt front others hfront
          have hend' := hbefore front others hfront
          omega

theorem push (h : Streamed c) {size : Nat} (srcDataPtr : Option (Int → UInt8)) (mscclFlowId : Nat)
    (hshort : (c.pushed.map RdmaMessage.size).sum + size < 2 ^ 32)
    (hempty : c.qp.messages = [] → 0 < size ∧ c.qp.sndUna ≤ c.qp.sndNxt) :
    Streamed (c.push size srcDataPtr mscclFlowId) := by
  have htracked := h.tracked.push size srcDataPtr mscclFlowId
    ⟨fun hnil => (hempty hnil).2, Nat.lt_trans hshort (by decide)⟩
  refine ⟨htracked, h.persistent, ?_, ?_, ?_, h.sndNxt_covered, h.sndUna_covered, h.inTx_covered,
    h.transmitted_le⟩
  · rwa [stream_length, Sender.push, List.map_append, List.sum_append, List.map_singleton,
      List.sum_singleton]
  · intro m rest hpushed
    simp only [Sender.push] at hpushed
    cases hold : c.pushed with
    | nil =>
        rw [hold] at hpushed
        cases hpushed
        have hsplit := h.tracked.accounted.split
        rw [hold] at hsplit
        exact (hempty (List.append_eq_nil_iff.mp hsplit).2).1
    | cons first others =>
        rw [hold] at hpushed
        cases hpushed
        exact h.first_pos _ _ hold
  · intro front rest hmessages
    have hfront := (htracked.front_end hmessages).1
    simp only [Sender.push, RdmaQueuePair.pushMessage] at hmessages hfront
    cases hold : c.qp.messages with
    | nil =>
        rw [hold] at hmessages
        cases hmessages
        obtain ⟨hpos, -⟩ := hempty hold
        have huna := (h.tracked.of_empty hold).1
        have hsplit := h.tracked.accounted.split
        rw [hold, List.append_nil] at hsplit
        rw [hsplit] at hfront
        have hstart : c.qp.nextStartSeq = (stream c.pushed).length := hfront
        change c.qp.sndUna < c.qp.nextStartSeq + size
        omega
    | cons front' others =>
        rw [hold] at hmessages
        cases hmessages
        exact h.front_lt _ _ hold

theorem send (h : Streamed c) {win : Nat} (hsend : c.send hw win = some c') : Streamed c' := by
  have htracked := h.tracked.send hsend
  obtain ⟨front, rest, hmessages, htx, rfl, hseq, hnxt, -, -, -⟩ := h.tracked.send_cases hsend
  have hcovered := h.sndNxt_covered
  rw [htx, Option.toList_none, List.append_nil] at hcovered
  refine ⟨htracked, h.persistent, h.short, h.first_pos, h.front_lt, ?_, h.sndUna_covered, ?_,
    h.transmitted_le⟩
  · intro i hi
    simp only [hnxt] at hi
    by_cases hold : i < c.qp.sndNxt
    · obtain ⟨p, hp, hcarries⟩ := hcovered i hold
      exact ⟨p, List.mem_append_left _ hp, hcarries⟩
    · refine ⟨(c.qp.getNxtPacket hw).1, by simp, ?_⟩
      rw [DataPacket.Carries, hseq]
      omega
  · intro p hp
    cases hp
    rw [hseq]
    exact hcovered

theorem sent (h : Streamed c) (hack : hw.ackInterval = 0) (hsent : c.sent hw = some c') :
    Streamed c' := by
  have htracked := h.tracked.sent hsent
  obtain ⟨p, htx, rfl⟩ := Option.map_eq_some_iff.mp hsent
  obtain ⟨hauto, hclosed⟩ := h.persistent
  have hend := h.tracked.inTx_sent p htx
  have hpushed := h.tracked.sent_pushed
  have hshort := h.short
  have hseq : u32 (u32 p.seq + p.payload.length) = p.seq + p.payload.length := by
    rw [u32_of_lt (n := p.seq) (by omega), u32_of_lt (by omega)]
  obtain ⟨huna, hnxt, hloop, hpersistent⟩ :=
    RdmaQueuePair.sendPacketComplete_persistent hack hauto hclosed p
  rw [hseq] at huna
  refine ⟨htracked, hpersistent, h.short, h.first_pos, ?_, ?_, ?_, ?_, ?_⟩
  · intro front rest hmessages
    obtain ⟨-, -, -, hfits⟩ := htracked.front_end hmessages
    have hlt := RdmaQueuePair.completeMessages_front hloop hmessages
    rwa [u64_of_lt hfits] at hlt
  · intro i hi
    simp only [hnxt] at hi
    obtain ⟨q, hq, hcarries⟩ := h.sndNxt_covered i hi
    rw [htx] at hq
    exact ⟨q, by simpa using hq, hcarries⟩
  · intro i hi
    simp only [huna] at hi
    by_cases hbefore : i < c.qp.sndUna
    · obtain ⟨q, hq, hcarries⟩ := h.sndUna_covered i hbefore
      exact ⟨q, List.mem_append_left _ hq, hcarries⟩
    · by_cases hseq : i < p.seq
      · obtain ⟨q, hq, hcarries⟩ := h.inTx_covered p htx i hseq
        exact ⟨q, List.mem_append_left _ hq, hcarries⟩
      · refine ⟨p, by simp, ?_⟩
        rw [DataPacket.Carries]
        omega
  · intro q hq
    cases hq
  · intro q hq
    simp only [huna]
    rcases List.mem_append.mp hq with hq | hq
    · exact Nat.le_trans (h.transmitted_le q hq) (Nat.le_max_left _ _)
    · rw [List.mem_singleton.mp hq]
      exact Nat.le_max_right _ _

theorem ack (h : Streamed c) (hinterval : hw.ackInterval = 0) {a : AckPacket}
    (hack : c.ack hw a = some c') : Streamed c' := by
  have htracked := h.tracked.ack hack
  obtain ⟨fired, qp, -, hrecv, rfl⟩ := Tracked.ack_cases hack
  obtain ⟨rfl, rfl | ⟨-, rfl⟩⟩ := RdmaQueuePair.receiveAck_of_noAck hinterval hrecv
  · exact { h with tracked := htracked }
  · refine { h with tracked := htracked, sndNxt_covered := ?_ }
    intro i hi
    obtain ⟨p, hp, hcarries⟩ := h.sndUna_covered i hi
    exact ⟨p, List.mem_append_left _ hp, hcarries⟩

theorem step (hinterval : hw.ackInterval = 0) (c : Sender) (e : Event) (c' : Sender) (h : Streamed c)
    (hok : Short c e) (hstep : c.step hw e = some c') : Streamed c' := by
  cases e with
  | push size srcDataPtr mscclFlowId =>
      cases hstep
      apply h.push _ _ hok.1
      intro hempty
      obtain ⟨hne, haligned⟩ := hok.2 hempty
      refine ⟨Nat.pos_of_ne_zero ?_, haligned⟩
      intro hzero
      exact hne (UInt64.toNat_inj.mp hzero)
  | send win => exact h.send hstep
  | sent => exact h.sent hinterval hstep
  | ack a => exact h.ack hinterval hstep

end Streamed

/-- On a stream below `2 ^ 32` bytes every message is finished once, in order, when its last byte has
left. -/
theorem run_finishedWhenSent (hw : RdmaHw) (hinterval : hw.ackInterval = 0) (mscclFlowId : Nat)
    (es : List Event) (c : Sender) (hrun : Run (step hw) Short (initial false mscclFlowId) es c) :
    FinishedWhenSent c :=
  (hrun.invariant (Streamed.step hinterval) (Streamed.initial mscclFlowId)).finishedWhenSent

/-- One byte per packet and no acknowledgements. -/
def byteNoAckHw : RdmaHw := ⟨1, 0, 1, false, 10⟩

/-- A message of two bytes and one of one byte that is pushed while the first packet leaves. -/
def pushWhileSending : List Event :=
  [.push 2 (some fun _ => 5) 1, .send 0, .push 1 (some fun _ => 6) 2, .sent, .send 0, .sent, .send 0]

theorem pushWhileSending_finishedWhenSent :
    byteNoAckHw.ackInterval = 0 ∧
      ∃ c, Run (step byteNoAckHw) Short (initial false 0) pushWhileSending c ∧
        (c.pushed.length = 2 ∧ c.finished.length = 1 ∧ c.transmitted.length = 2) ∧
        FinishedWhenSent c := by
  have hinterval : byteNoAckHw.ackInterval = 0 := rfl
  obtain ⟨c, hrun, hc⟩ := exists_run (step byteNoAckHw) Short
    (fun c => c.pushed.length = 2 ∧ c.finished.length = 1 ∧ c.transmitted.length = 2)
    (initial false 0) pushWhileSending (by decide +kernel)
  exact ⟨hinterval, c, hrun, hc, run_finishedWhenSent byteNoAckHw hinterval 0 _ c hrun⟩

/-- Packets of up to `2 ^ 32 - 1` bytes and no acknowledgements. -/
def longNoAckHw : RdmaHw := ⟨4294967295, 0, 1, false, 10⟩

/-- A queue pair with one message of `2 ^ 32` bytes. -/
def longPair (sndNxt sndUna : Nat) : RdmaQueuePair :=
  ⟨[⟨4294967296, 0, none, 1⟩], sndNxt, sndUna, 0, false, false⟩

theorem longPair_bytesLeft {n : Nat} (una : Nat) (hn : n ≤ 4294967296) :
    (longPair n una).getBytesLeft = 4294967296 - n := by
  have hend : u64 (0 + 4294967296) = 4294967296 := u64_of_lt (by decide)
  simp only [RdmaQueuePair.getBytesLeft, longPair, hend, if_pos hn]

theorem longPair_next {n : Nat} (una : Nat) (hn : n ≤ 4294967296) :
    ((longPair n una).getNxtPacket longNoAckHw).1.seq = n ∧
      ((longPair n una).getNxtPacket longNoAckHw).1.payload.length =
        min 4294967295 (4294967296 - n) ∧
      ((longPair n una).getNxtPacket longNoAckHw).2 =
        longPair (n + min 4294967295 (4294967296 - n)) una := by
  have hmtu : longNoAckHw.mtu.toNat = 4294967295 := rfl
  have hwrap : u64 ((longPair n una).sndNxt + min 4294967295 (4294967296 - n)) =
      n + min 4294967295 (4294967296 - n) :=
    u64_of_lt (by change n + _ < _; omega)
  refine ⟨rfl, ?_, ?_⟩
  · simp only [RdmaQueuePair.getNxtPacket, List.length_map, List.length_range, hmtu,
      longPair_bytesLeft una hn]
  · simp only [RdmaQueuePair.getNxtPacket, hmtu, longPair_bytesLeft una hn, hwrap]
    rfl

theorem longPair_complete (n : Nat) {una una' : Nat} (p : DataPacket)
    (huna : max una (u32 (u32 p.seq + p.payload.length)) = una') (hlt : una' < 4294967296) :
    (longPair n una).sendPacketComplete longNoAckHw p = ([], longPair n una') := by
  have hend : ¬ u64 (0 + 4294967296) ≤ una' := by
    rw [u64_of_lt (by decide)]
    omega
  have hack : (longPair n una).acknowledge (u32 (u32 p.seq + p.payload.length)) = longPair n una' := by
    have hsndUna : (longPair n una).sndUna = una := rfl
    rw [RdmaQueuePair.acknowledge, hsndUna, ← huna]
    by_cases hless : una < u32 (u32 p.seq + p.payload.length)
    · rw [if_pos hless, Nat.max_eq_right (Nat.le_of_lt hless)]
      rfl
    · rw [if_neg hless, Nat.max_eq_left (Nat.not_lt.mp hless)]
  have hloop : RdmaQueuePair.completeMessages (longPair n una').sndUna (longPair n una').messages =
      ([], (longPair n una').messages) := by
    simp only [longPair, RdmaQueuePair.completeMessages, hend, if_false]
  simp only [RdmaQueuePair.sendPacketComplete, hack, RdmaQueuePair.finishMessages, hloop]
  rfl

/-- Whenever the window is open and bytes are left, the next packet can leave. -/
theorem send_window_open {c : Sender} (hw : RdmaHw) (htx : c.inTx = none)
    (hleft : 0 < c.qp.getBytesLeft) :
    c.step hw (.send 0) = some { c with
      inTx := some (c.qp.getNxtPacket hw).1
      qp := (c.qp.getNxtPacket hw).2
      sentBytes := max c.sentBytes (c.qp.getNxtPacket hw).2.sndNxt
      emitted := c.emitted ++ [(c.qp.getNxtPacket hw).1] } := by
  have hopen : c.qp.isWinBound 0 = false := by simp [RdmaQueuePair.isWinBound]
  rw [step, Sender.send, if_pos ⟨htx, hleft, hopen⟩]

theorem sent_step {c : Sender} (hw : RdmaHw) {p : DataPacket} (htx : c.inTx = some p) :
    c.step hw .sent = some { c with
      inTx := none
      qp := (c.qp.sendPacketComplete hw p).2
      finished := c.finished ++ (c.qp.sendPacketComplete hw p).1
      transmitted := c.transmitted ++ [p] } := by
  rw [step, Sender.sent, htx]
  rfl

theorem longPair_round {c : Sender} {n una k : Nat} (una' : Nat) (htx : c.inTx = none)
    (hqp : c.qp = longPair n una) (hn : n < 4294967296) (hk : min 4294967295 (4294967296 - n) = k)
    (huna : max una (u32 (u32 n + k)) = una') (hlt : una' < 4294967296) :
    ∃ c' p, Run (step longNoAckHw) anyEvent c [.send 0, .sent] c' ∧ c'.inTx = none ∧
      c'.qp = longPair (n + k) una' ∧ c'.pushed = c.pushed ∧ c'.finished = c.finished ∧
      c'.transmitted = c.transmitted ++ [p] ∧ p.seq = n ∧ p.payload.length = k := by
  obtain ⟨hseq, hlen, hnext⟩ := longPair_next (n := n) una (Nat.le_of_lt hn)
  rw [hk] at hlen hnext
  have hleft : 0 < c.qp.getBytesLeft := by
    rw [hqp, longPair_bytesLeft una (Nat.le_of_lt hn)]
    omega
  have hcomplete := longPair_complete (n + k)
    ((longPair n una).getNxtPacket longNoAckHw).1 (by rw [hseq, hlen, huna]) hlt
  have hsend := send_window_open longNoAckHw htx hleft
  rw [hqp, hnext] at hsend
  have hsent := sent_step (c := { c with
    inTx := some ((longPair n una).getNxtPacket longNoAckHw).1
    qp := longPair (n + k) una
    sentBytes := max c.sentBytes (longPair (n + k) una).sndNxt
    emitted := c.emitted ++ [((longPair n una).getNxtPacket longNoAckHw).1] }) longNoAckHw rfl
  simp only [hcomplete, List.append_nil] at hsent
  exact ⟨_, _, .cons trivial hsend (.cons trivial hsent (.nil _)), rfl, rfl, rfl, rfl, rfl, hseq, hlen⟩

/-- A message of `2 ^ 32` bytes leaves in two packets, and the end of the second one is read as 0. -/
theorem not_finishedWhenSent :
    ¬ ∀ (hw : RdmaHw), hw.ackInterval = 0 → ∀ (mscclFlowId : Nat) (es : List Event) (c : Sender),
      Run (step hw) anyEvent (initial false mscclFlowId) es c → FinishedWhenSent c := by
  intro hall
  have hpush : (initial false 0).step longNoAckHw (.push 4294967296 none 1) =
      some { initial false 0 with qp := longPair 0 0, pushed := [⟨4294967296, 0, none, 1⟩] } := rfl
  obtain ⟨c₁, p₁, hrun₁, htx₁, hqp₁, hpushed₁, hfinished₁, -, -, -⟩ :=
    longPair_round 4294967295 (n := 0) (k := 4294967295)
      (c := { initial false 0 with qp := longPair 0 0, pushed := [⟨4294967296, 0, none, 1⟩] })
      rfl rfl (by decide) (by decide) (by decide) (by decide)
  obtain ⟨c₂, p₂, hrun₂, -, -, hpushed₂, hfinished₂, htransmitted, hseq, hlen⟩ :=
    longPair_round 4294967295 (k := 1) htx₁ hqp₁ (by decide) (by decide) (by decide)
      (by decide)
  have hrun := Run.cons trivial hpush (hrun₁.append hrun₂)
  obtain ⟨-, hiff⟩ := hall longNoAckHw rfl 0 _ c₂ hrun
  have hlast := (hiff [] ⟨4294967296, 0, none, 1⟩ [] (by rw [hpushed₂, hpushed₁]; rfl)).mpr
    ⟨p₂, by rw [htransmitted]; simp, by
      rw [DataPacket.Carries, hseq, hlen]
      simp⟩
  rw [hfinished₂, hfinished₁] at hlast
  exact absurd hlast (Nat.lt_irrefl 0)

end Sender

end CollectiveSim.Rdma
