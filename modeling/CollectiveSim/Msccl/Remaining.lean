import CollectiveSim.Msccl.Waiting

/-!
# Bytes still to leave

What a connection has still to carry are the bytes of the sends that have not started and of the
message under way. Moves other than that of a fragment leave their number as it is, and every
fragment on the wire is part of one message.
-/

namespace CollectiveSim.Msccl

open Framework Interpreter

section

variable {cfg : AppConfig} {algos : Nat → Option MscclAlgorithm} {counts : ConnId → List Nat}
  {tb : MscclThreadBlock} {tran : MscclTransfer} {i : Nat} {c : ConnId}

def MscclTransfer.sendBytes (cfg : AppConfig) (tran : MscclTransfer) : Nat :=
  if tran.type = .send then cfg.bytes tran.count else 0

/-- The bytes that the transfers from `i` on send. -/
def MscclThreadBlock.toSend (cfg : AppConfig) (tb : MscclThreadBlock) (i : Nat) : Nat :=
  ((tb.transfers.drop i).map (MscclTransfer.sendBytes cfg)).sum

namespace MscclThreadBlock

theorem toSend_of_some (htran : tb.transfers[i]? = some tran) :
    tb.toSend cfg i = tran.sendBytes cfg + tb.toSend cfg (i + 1) := by
  obtain ⟨hlt, rfl⟩ := List.getElem?_eq_some_iff.mp htran
  rw [toSend, List.drop_eq_getElem_cons hlt, List.map_cons, List.sum_cons]
  rfl

theorem toSend_of_le (h : tb.nsteps ≤ i) : tb.toSend cfg i = 0 := by
  rw [toSend, List.drop_of_length_le h]
  rfl

end MscclThreadBlock

theorem Side.has_sending_iff (type : TransferType) : Side.sending.Has type = true ↔ type = .send := by
  cases type <;> simp [Side.Has]

theorem bytesBefore_add_toSend (cfg : AppConfig) {gpu bid : Nat} {algo : MscclAlgorithm}
    (hpaired : Paired algos counts) (huses : Side.sending.Uses algos c gpu bid algo) (i : Nat) :
    bytesBefore cfg counts c (Side.sending.index (algo.mscclTBs bid) i) +
      (algo.mscclTBs bid).toSend cfg i = bytesBefore cfg counts c (counts c).length := by
  have hcounts := hpaired.counts _ _ _ _ _ huses
  have hstep (j : Nat) : bytesBefore cfg counts c (Side.sending.index (algo.mscclTBs bid) (j + 1)) +
        (algo.mscclTBs bid).toSend cfg (j + 1) =
      bytesBefore cfg counts c (Side.sending.index (algo.mscclTBs bid) j) +
        (algo.mscclTBs bid).toSend cfg j := by
    cases htran : (algo.mscclTBs bid).transfers[j]? with
    | none =>
        have hle := List.getElem?_eq_none_iff.mp htran
        rw [MscclThreadBlock.toSend_of_le (Nat.le_succ_of_le hle), MscclThreadBlock.toSend_of_le hle,
          Side.index, Side.index, List.take_of_length_le hle,
          List.take_of_length_le (Nat.le_succ_of_le hle)]
    | some tran =>
        rw [MscclThreadBlock.toSend_of_some htran, Side.index_succ _ htran, MscclTransfer.sendBytes]
        by_cases hsend : tran.type = .send
        · have hhas := (Side.has_sending_iff tran.type).mpr hsend
          have hcount := Side.counts_getElem? htran hhas
          rw [hcounts] at hcount
          rw [if_pos hsend, if_pos hhas, bytesBefore_succ, msgSize, hcount, Option.getD_some]
          omega
        · rw [if_neg hsend, if_neg fun hhas => hsend ((Side.has_sending_iff tran.type).mp hhas),
            Nat.add_zero, Nat.zero_add]
  have hall (j : Nat) : bytesBefore cfg counts c (Side.sending.index (algo.mscclTBs bid) j) +
      (algo.mscclTBs bid).toSend cfg j =
        bytesBefore cfg counts c (Side.sending.index (algo.mscclTBs bid) 0) +
          (algo.mscclTBs bid).toSend cfg 0 := by
    induction j with
    | zero => rfl
    | succ j ih => rw [hstep, ih]
  have hlast : Side.sending.index (algo.mscclTBs bid) (algo.mscclTBs bid).nsteps =
      (counts c).length := by
    rw [← hcounts, Side.index, Side.counts, List.length_map, List.countP_eq_length_filter,
      MscclThreadBlock.nsteps, List.take_length]
  have hend := hall (algo.mscclTBs bid).nsteps
  rw [hlast, MscclThreadBlock.toSend_of_le (Nat.le_refl _), Nat.add_zero] at hend
  rw [hall i, ← hend]

end

theorem Op.uses_of_on {algos : Nat → Option MscclAlgorithm} {side : Side} {c : ConnId} {u : Op}
    {algo : MscclAlgorithm} (halgo : algos u.gpu = some algo) (hon : u.on algos side c = true) :
    side.Uses algos c u.gpu u.bid algo := by
  obtain ⟨tran, htran, slot, hslot, rfl⟩ := Op.on_eq_true.mp hon
  exact u.uses halgo htran hslot

/-- The bytes that the action lets a thread block begin to send. -/
def Action.sendBytes (cfg : AppConfig) (algo : MscclAlgorithm) (bid : Nat) : Action → Nat
  | .fire (.runStep b sid) =>
      if b = bid then ((algo.mscclTBs bid).transfers[sid]?.map (MscclTransfer.sendBytes cfg)).getD 0
      else 0
  | .fire (.tryScheduleNextStep _) | .fire (.stepCompletion _ _) | .finish _ _ => 0

namespace Interpreter

variable {cfg : AppConfig} {algo : MscclAlgorithm} {s s' : Interpreter}

/-- The bytes of the sends that a thread block has not started. -/
def toSend (cfg : AppConfig) (algo : MscclAlgorithm) (s : Interpreter) (bid : Nat) : Nat :=
  (algo.mscclTBs bid).toSend cfg (s.covered algo bid)

theorem isSend_eq {tb : MscclThreadBlock} {sid : Nat} {tran : MscclTransfer}
    (htran : tb.transfers[sid]? = some tran) : tb.isSend sid = decide (tran.type = .send) := by
  rw [MscclThreadBlock.isSend, htran]
  rfl

theorem Step.toSend_add (cfg : AppConfig) (himp : AllImplemented algo) (hreached : Reached algo s)
    (hreached' : Reached algo s') {a : Action} (hstep : Step algo s a s') (bid : Nat) :
    s'.toSend cfg algo bid + a.sendBytes cfg algo bid = s.toSend cfg algo bid := by
  cases a with
  | finish b sid =>
      have hmem : (b, sid) ∈ s.running := by
        cases hstep with
        | finish hmem => exact hmem
      rw [toSend, toSend, hstep.covered_finish hreached.accounted, Action.sendBytes, Nat.add_zero]
      by_cases hb : bid = b
      · subst hb
        rw [if_pos rfl, hreached.accounted.covered_of_running hmem]
        by_cases hsend : (algo.mscclTBs bid).isSend sid = true
        · rw [if_pos hsend]
        · -- a transfer other than a send has no bytes to leave
          rw [if_neg hsend]
          obtain ⟨hbusy, hsid⟩ := hreached.accounted.of_running hmem
          have hlt := hreached.accounted.busy_lt bid hbusy
          rw [← hsid] at hlt
          have htran := List.getElem?_eq_getElem hlt
          rw [isSend_eq htran, decide_eq_true_iff] at hsend
          rw [MscclThreadBlock.toSend_of_some htran, MscclTransfer.sendBytes, if_neg hsend,
            Nat.zero_add]
      · rw [if_neg hb]
  | fire e =>
      cases e with
      | tryScheduleNextStep b =>
          have hcontrol := hstep.control hreached.accounted fun _ _ heq => by cases heq
          rw [toSend, toSend, covered_congr (hcontrol.nextFinish bid)
            (fun i => by rw [hcontrol.running]), Action.sendBytes, Nat.add_zero]
      | stepCompletion b sid =>
          have hcontrol := hstep.control hreached.accounted fun _ _ heq => by cases heq
          rw [toSend, toSend, covered_congr (hcontrol.nextFinish bid)
            (fun i => by rw [hcontrol.running]), Action.sendBytes, Nat.add_zero]
      | runStep b sid =>
          have hmem : .runStep b sid ∈ s.pending := by
            cases hstep with
            | start hmem htran htype => exact hmem
            | ignore hmem htran htype => exact hmem
          have hrunning := hstep.running_start himp hreached
          rw [toSend, toSend, hstep.covered_start hreached.accounted hreached'.accounted hrunning,
            Action.sendBytes]
          by_cases hb : bid = b
          · subst hb
            obtain ⟨hbusy, hsid⟩ := hreached.accounted.of_runStep hmem
            have hlt := hreached.accounted.busy_lt bid hbusy
            rw [← hsid] at hlt
            have htran := List.getElem?_eq_getElem hlt
            rw [(hreached.accounted.idle_of_runStep hmem).2, if_pos rfl, htran,
              isSend_eq htran, MscclThreadBlock.toSend_of_some htran, Option.map_some,
              Option.getD_some, MscclTransfer.sendBytes]
            by_cases hsend : (algo.mscclTBs bid).transfers[sid].type = .send
            · rw [if_pos ⟨rfl, decide_eq_true hsend⟩, if_pos hsend, Nat.add_comm]
            · rw [if_neg fun h => hsend (of_decide_eq_true h.2), if_neg hsend,
                MscclThreadBlock.toSend_of_some htran, MscclTransfer.sendBytes, if_neg hsend,
                Nat.add_zero]
          · rw [if_neg fun h => hb h.1, if_neg (Ne.symm hb), Nat.add_zero]

end Interpreter

/-- The bytes of the messages in the queue that have not left. -/
def Connection.unsent (conn : Connection) : Nat :=
  (conn.queue.map fun m => m.source.size - m.emitted).sum

namespace Collective

variable {cfg : AppConfig} {algos : Nat → Option MscclAlgorithm} {counts : ConnId → List Nat}
  {s s' : Collective} {c : ConnId} {gpu bid : Nat} {algo : MscclAlgorithm}

/-- The bytes that a thread block has still to send on its connection. -/
def toLeave (cfg : AppConfig) (algo : MscclAlgorithm) (gpu bid : Nat) (s : Collective) : Nat :=
  (s.sending (sendConn gpu (algo.mscclTBs bid))).unsent + (s.interp gpu).toSend cfg algo bid

/-- The first fragment on a connection has left its message. -/
structure Emits (cfg : AppConfig) (algos : Nat → Option MscclAlgorithm) (s s' : Collective)
    (c : ConnId) (payload : List UInt8) : Prop where
  interp : s'.interp = s.interp
  wire : (s'.sending c).wire = (s.sending c).wire ++ [payload]
  pos : 0 < payload.length
  message : ∃ u tran m, u.transfer algos = some tran ∧ u.on algos .sending c = true ∧ s.Runs u ∧
    (s.sending c).queue = [m] ∧ m.source = tran.source cfg ∧
    m.emitted + payload.length ≤ m.source.size ∧
    (s'.sending c).queue = [{ m with emitted := m.emitted + payload.length }]

theorem sendBytes_start {u : Op} {tran : MscclTransfer} (halgo : algos u.gpu = some algo)
    (htran : u.transfer algos = some tran) (bid : Nat) :
    (Action.fire (.runStep u.bid u.sid)).sendBytes cfg algo bid =
      if u.bid = bid then tran.sendBytes cfg else 0 := by
  obtain ⟨algo', halgo', -, -, hget⟩ := Op.transfer_eq_some.mp htran
  obtain rfl := Option.some_inj.mp (halgo.symm.trans halgo')
  rw [Action.sendBytes]
  by_cases hb : u.bid = bid
  · subst hb
    rw [if_pos rfl, if_pos rfl, hget]
    rfl
  · rw [if_neg hb, if_neg hb]

theorem toSend_update {gpu' : Nat} {i : Interpreter} (halgo : algos gpu = some algo)
    {algo' : MscclAlgorithm} (halgo' : algos gpu' = some algo')
    (hi : ∀ b, i.toSend cfg algo' b = (s.interp gpu').toSend cfg algo' b) (bid : Nat) :
    (Function.update s.interp gpu' i gpu).toSend cfg algo bid =
      (s.interp gpu).toSend cfg algo bid := by
  by_cases hgpu : gpu = gpu'
  · subst hgpu
    obtain rfl := Option.some_inj.mp (halgo.symm.trans halgo')
    rw [Function.update_self, hi]
  · rw [Function.update_of_ne hgpu]

theorem unsent_update {f : ConnId → Connection} {c c' : ConnId} {conn : Connection}
    (hconn : conn.unsent = (f c).unsent) : (Function.update f c conn c').unsent = (f c').unsent := by
  by_cases hc : c' = c
  · subst hc
    rw [Function.update_self, hconn]
  · rw [Function.update_of_ne hc]

theorem unsent_wire (f : ConnId → Connection) (c c' : ConnId) (wire : List (List UInt8)) :
    (Function.update f c ⟨(f c).queue, wire⟩ c').unsent = (f c').unsent :=
  unsent_update rfl

theorem wire_update {f : ConnId → Connection} {c c' : ConnId} {conn : Connection}
    (hconn : conn.wire <:+ (f c).wire) : (Function.update f c conn c').wire <:+ (f c').wire := by
  by_cases hc : c' = c
  · subst hc
    rwa [Function.update_self]
  · rw [Function.update_of_ne hc]

theorem toLeave_send {u : Op} {tran : MscclTransfer} {i : Interpreter}
    {captured : Option (List UInt8)} (hpaired : Paired algos counts)
    (hreached : Reached algo (s.interp u.gpu)) (himp : AllImplemented algo) (hbound : Bounded algo)
    (halgo : algos u.gpu = some algo) (htran : u.transfer algos = some tran)
    (htype : tran.type = .send) (hon : u.on algos .sending c = true)
    (hqueue : (s.sending c).queue = [])
    (hi : Step algo (s.interp u.gpu) (.fire (.runStep u.bid u.sid)) i) {algo' : MscclAlgorithm}
    {c' : ConnId} (huses : Side.sending.Uses algos c' gpu bid algo') :
    toLeave cfg algo' gpu bid { s with
      interp := Function.update s.interp u.gpu i
      sending := Function.update s.sending c
        ⟨[⟨u.bid, u.sid, tran.source cfg, 0, captured⟩], (s.sending c).wire⟩ } =
      toLeave cfg algo' gpu bid s := by
  have hreached' : Reached algo i := ⟨hreached.accounted.step hi, hreached.inRange.step hi,
    hreached.flagged.step hbound hreached.accounted hreached.inRange hi⟩
  have hsend := hi.toSend_add cfg himp hreached hreached'
  simp only [sendBytes_start halgo htran] at hsend
  have husesc := Op.uses_of_on halgo hon
  have hconn : sendConn u.gpu (algo.mscclTBs u.bid) = c := husesc.conn
  rw [toLeave, toLeave]
  by_cases hgpu : gpu = u.gpu
  · subst hgpu
    obtain rfl := Option.some_inj.mp (halgo.symm.trans huses.gpu_algo)
    have hadd := hsend bid
    simp only [Function.update_self]
    by_cases hb : u.bid = bid
    · subst hb
      rw [if_pos rfl, MscclTransfer.sendBytes, if_pos htype] at hadd
      rw [hconn, Function.update_self, ← hadd, Connection.unsent, Connection.unsent, hqueue]
      simp only [List.map_cons, List.map_nil, List.sum_cons, List.sum_nil, Nat.add_zero, Nat.sub_zero,
        Nat.zero_add, MscclTransfer.source]
      exact Nat.add_comm _ _
    · rw [if_neg hb, Nat.add_zero] at hadd
      have hne : sendConn u.gpu (algo.mscclTBs bid) ≠ c := by
        intro heq
        obtain rfl : c' = c := huses.conn.symm.trans heq
        exact hb (hpaired.unique _ _ _ _ _ _ _ _ husesc huses).2
      rw [Function.update_of_ne hne, hadd]
  · have hne : sendConn gpu (algo'.mscclTBs bid) ≠ c := by
      intro heq
      rw [← hconn] at heq
      exact hgpu (congrArg ConnId.sender heq)
    simp only [Function.update_of_ne hne, Function.update_of_ne hgpu]

/-- A move lets a fragment leave, or it leaves what is to be sent as it is. -/
theorem Change.leaves (h : Change cfg algos s s') (hpaired : Paired algos counts)
    (himp : ∀ gpu algo, algos gpu = some algo → AllImplemented algo)
    (hbound : ∀ gpu algo, algos gpu = some algo → Bounded algo)
    (hreached : ∀ gpu algo, algos gpu = some algo → Reached algo (s.interp gpu)) :
    (∃ c payload, Emits cfg algos s s' c payload ∧ ∀ c', c' ≠ c → s'.sending c' = s.sending c') ∨
    ((∀ c, (s'.sending c).wire <:+ (s.sending c).wire) ∧
      ∀ c gpu bid algo, Side.sending.Uses algos c gpu bid algo →
        toLeave cfg algo gpu bid s' = toLeave cfg algo gpu bid s) := by
  have hnext {gpu : Nat} {algo : MscclAlgorithm} {i j : Interpreter} {a : Action}
      (halgo : algos gpu = some algo) (hi : Reached algo i) (hstep : Step algo i a j)
      (hzero : ∀ b, a.sendBytes cfg algo b = 0) :
      Reached algo j ∧ ∀ b, j.toSend cfg algo b = i.toSend cfg algo b := by
    have hj : Reached algo j := ⟨hi.accounted.step hstep, hi.inRange.step hstep,
      hi.flagged.step (hbound _ _ halgo) hi.accounted hi.inRange hstep⟩
    refine ⟨hj, fun b => ?_⟩
    have hadd := hstep.toSend_add cfg (himp _ _ halgo) hi hj b
    rwa [hzero, Nat.add_zero] at hadd
  have hquiet {u : Op} {algo : MscclAlgorithm} {tran : MscclTransfer}
      (halgo : algos u.gpu = some algo) (htran : u.transfer algos = some tran)
      (htype : tran.type ≠ .send) (b : Nat) :
      (Action.fire (.runStep u.bid u.sid)).sendBytes cfg algo b = 0 := by
    rw [sendBytes_start halgo htran, MscclTransfer.sendBytes, if_neg htype, ite_self]
  cases h with
  | @control gpu algo e i halgo hrun hi =>
      right
      have hzero (b : Nat) : (Action.fire e).sendBytes cfg algo b = 0 := by
        cases e with
        | runStep bid sid => exact absurd rfl (hrun bid sid)
        | tryScheduleNextStep bid => rfl
        | stepCompletion bid sid => rfl
      refine ⟨fun c => List.suffix_rfl, fun c gpu' bid algo' huses => ?_⟩
      rw [toLeave, toLeave, toSend_update huses.gpu_algo halgo
        (hnext halgo (hreached _ _ halgo) hi hzero).2]
  | @send u algo tran c i captured halgo htran htype hon hqueue hi =>
      right
      refine ⟨fun c' => wire_update List.suffix_rfl, fun c' gpu bid algo' huses => ?_⟩
      exact toLeave_send hpaired (hreached _ _ halgo) (himp _ _ halgo) (hbound _ _ halgo) halgo htran
        htype hon hqueue hi huses
  | @copy u algo tran i j memory halgo htran htype hi hj =>
      right
      obtain ⟨hmid, hsame⟩ := hnext halgo (hreached _ _ halgo) hi
        (hquiet halgo htran (by rw [htype]; decide))
      have hsame' := (hnext halgo hmid hj fun _ => rfl).2
      refine ⟨fun c => List.suffix_rfl, fun c gpu bid algo' huses => ?_⟩
      rw [toLeave, toLeave, toSend_update huses.gpu_algo halgo fun b => (hsame' b).trans (hsame b)]
  | @wait u algo tran kind c i held memory halgo htran htype hon hpeer hi =>
      right
      have hsame := (hnext halgo (hreached _ _ halgo) hi
        (hquiet halgo htran (by rw [htype]; exact kind.type_ne_send))).2
      refine ⟨fun c => List.suffix_rfl, fun c gpu bid algo' huses => ?_⟩
      rw [toLeave, toLeave, toSend_update huses.gpu_algo halgo hsame]
  | @claim u algo tran kind c i j held rest memory halgo htran htype hon hpeer hi hj =>
      right
      obtain ⟨hmid, hsame⟩ := hnext halgo (hreached _ _ halgo) hi
        (hquiet halgo htran (by rw [htype]; exact kind.type_ne_send))
      have hsame' := (hnext halgo hmid hj fun _ => rfl).2
      refine ⟨fun c => List.suffix_rfl, fun c gpu bid algo' huses => ?_⟩
      rw [toLeave, toLeave, toSend_update huses.gpu_algo halgo fun b => (hsame' b).trans (hsame b)]
  | @emit u tran c m n payload htran hon hruns hqueue hsource hpos hle hlen =>
      left
      subst hlen
      refine ⟨c, payload, ⟨rfl, ?_, hpos, u, tran, m, htran, hon, hruns, hqueue, hsource, hle, ?_⟩,
        fun c' hc => Function.update_of_ne hc _ _⟩
      · simp only [Function.update_self]
      · simp only [Function.update_self]
  | @sent u algo tran c m i halgo htran hon hqueue hall hi =>
      right
      have hsame := (hnext halgo (hreached _ _ halgo) hi fun _ => rfl).2
      refine ⟨fun c' => wire_update List.suffix_rfl, fun c' gpu bid algo' huses => ?_⟩
      rw [toLeave, toLeave, toSend_update huses.gpu_algo halgo hsame, unsent_update]
      simp [Connection.unsent, hqueue, hall]
  | @store c payload held wire hwire hpeer =>
      right
      refine ⟨fun c' => wire_update ?_, fun c' gpu bid algo huses => ?_⟩
      · rw [hwire]
        exact List.suffix_cons payload wire
      · simp only [toLeave, unsent_wire]
  | @fill u tran kind c payload held wire memory hwire hpeer =>
      right
      refine ⟨fun c' => wire_update ?_, fun c' gpu bid algo huses => ?_⟩
      · rw [hwire]
        exact List.suffix_cons payload wire
      · simp only [toLeave, unsent_wire]
  | @land u algo tran kind c i payload wire memory halgo htran htype hon hwire hi =>
      right
      have hsame := (hnext halgo (hreached _ _ halgo) hi fun _ => rfl).2
      refine ⟨fun c' => wire_update ?_, fun c' gpu bid algo' huses => ?_⟩
      · rw [hwire]
        exact List.suffix_cons payload wire
      · simp only [toLeave, unsent_wire, toSend_update huses.gpu_algo halgo hsame]

/-! ### Fragments -/

theorem toLeave_congr (huses : Side.sending.Uses algos c gpu bid algo)
    (hsending : s'.sending c = s.sending c) (hinterp : s'.interp = s.interp) :
    toLeave cfg algo gpu bid s' = toLeave cfg algo gpu bid s := by
  have hconn : sendConn gpu (algo.mscclTBs bid) = c := huses.conn
  rw [toLeave, toLeave, hconn, hsending, hinterp]

theorem Emits.toLeave_add {payload : List UInt8} (h : Emits cfg algos s s' c payload)
    (huses : Side.sending.Uses algos c gpu bid algo) :
    toLeave cfg algo gpu bid s' + payload.length = toLeave cfg algo gpu bid s := by
  obtain ⟨u, tran, m, -, -, -, hqueue, -, hle, hqueue'⟩ := h.message
  have hconn : sendConn gpu (algo.mscclTBs bid) = c := huses.conn
  rw [toLeave, toLeave, hconn, h.interp, Connection.unsent, Connection.unsent, hqueue, hqueue']
  simp only [List.map_cons, List.map_nil, List.sum_cons, List.sum_nil]
  omega

/-- Where a fragment stands in the bytes of its connection, told from what comes behind it. -/
structure Framed (cfg : AppConfig) (algos : Nat → Option MscclAlgorithm)
    (counts : ConnId → List Nat) (s : Collective) (c : ConnId) (f : List UInt8)
    (back : List (List UInt8)) : Prop where
  pos : 0 < f.length
  place : ∃ gpu bid algo k p, Side.sending.Uses algos c gpu bid algo ∧
    bytesBefore cfg counts c k ≤ p ∧ p + f.length ≤ bytesBefore cfg counts c (k + 1) ∧
    p + f.length + back.flatten.length + toLeave cfg algo gpu bid s =
      bytesBefore cfg counts c (counts c).length

/-- Every fragment on a wire is part of one message. -/
def Fragmented (cfg : AppConfig) (algos : Nat → Option MscclAlgorithm)
    (counts : ConnId → List Nat) (s : Collective) : Prop :=
  ∀ c front f back, (s.sending c).wire = front ++ f :: back → Framed cfg algos counts s c f back

theorem Emits.framed {payload : List UInt8} (h : Emits cfg algos s s' c payload)
    (hpaired : Paired algos counts)
    (hreached : ∀ gpu algo, algos gpu = some algo → Reached algo (s.interp gpu)) :
    Framed cfg algos counts s' c payload [] := by
  obtain ⟨u, tran, m, htran, hon, hruns, hqueue, hsource, hle, hqueue'⟩ := h.message
  obtain ⟨algo, halgo, hbid, htb, hget⟩ := Op.transfer_eq_some.mp htran
  have huses := Op.uses_of_on halgo hon
  have hconn : sendConn u.gpu (algo.mscclTBs u.bid) = c := huses.conn
  have hhas := Op.has_of_on htran hon
  have hsend : (algo.mscclTBs u.bid).isSend u.sid = true := by
    rw [isSend_eq hget]
    exact decide_eq_true (Side.has_sending hhas)
  have hcovered := (hreached _ _ halgo).accounted.covered_of_running hruns
  rw [if_pos hsend] at hcovered
  have htotal := bytesBefore_add_toSend cfg hpaired huses (u.sid + 1)
  have hsize : msgSize cfg counts c (Side.sending.index (algo.mscclTBs u.bid) u.sid) =
      m.source.size := by
    have hcount := Side.counts_getElem? hget hhas
    rw [hpaired.counts _ _ _ _ _ huses] at hcount
    rw [msgSize, hcount, hsource]
    rfl
  have hnext := Side.index_succ .sending hget
  rw [if_pos hhas] at hnext
  rw [hnext, bytesBefore_succ, hsize] at htotal
  refine ⟨h.pos, u.gpu, u.bid, algo, Side.sending.index (algo.mscclTBs u.bid) u.sid,
    bytesBefore cfg counts c (Side.sending.index (algo.mscclTBs u.bid) u.sid) + m.emitted, huses,
    Nat.le_add_right _ _, ?_, ?_⟩
  · rw [bytesBefore_succ, hsize]
    omega
  · rw [toLeave, hconn, h.interp, Connection.unsent, hqueue', Interpreter.toSend, hcovered, ← htotal]
    simp only [List.map_cons, List.map_nil, List.sum_cons, List.sum_nil, List.flatten_nil,
      List.length_nil]
    omega

theorem Fragmented.step (h : Fragmented cfg algos counts s) (hpaired : Paired algos counts)
    (himp : ∀ gpu algo, algos gpu = some algo → AllImplemented algo)
    (hbound : ∀ gpu algo, algos gpu = some algo → Bounded algo)
    (hreached : ∀ gpu algo, algos gpu = some algo → Reached algo (s.interp gpu))
    (hchange : Change cfg algos s s') : Fragmented cfg algos counts s' := by
  intro c front f back hwire
  rcases hchange.leaves hpaired himp hbound hreached with
    ⟨c', payload, hemits, hother⟩ | ⟨hsuffix, hsame⟩
  · by_cases hc : c = c'
    · subst hc
      rw [hemits.wire] at hwire
      rcases List.eq_nil_or_concat back with rfl | ⟨back', last, rfl⟩
      · -- the new fragment
        obtain ⟨-, hlast⟩ := List.append_inj' hwire rfl
        cases hlast
        exact hemits.framed hpaired hreached
      · have hwire' : (s.sending c).wire ++ [payload] = (front ++ f :: back') ++ [last] := by
          rw [hwire]
          simp
        obtain ⟨hold, hlast⟩ := List.append_inj' hwire' rfl
        cases hlast
        obtain ⟨hpos, gpu, bid, algo, k, p, huses, hlo, hhi, htotal⟩ := h c front f back' hold
        refine ⟨hpos, gpu, bid, algo, k, p, huses, hlo, hhi, ?_⟩
        rw [← htotal, ← hemits.toLeave_add huses, List.concat_eq_append, List.flatten_append,
          List.length_append, List.flatten_singleton]
        omega
    · rw [hother c hc] at hwire
      obtain ⟨hpos, gpu, bid, algo, k, p, huses, hlo, hhi, htotal⟩ := h c front f back hwire
      refine ⟨hpos, gpu, bid, algo, k, p, huses, hlo, hhi, ?_⟩
      rw [toLeave_congr huses (hother c hc) hemits.interp]
      exact htotal
  · obtain ⟨gone, hgone⟩ := hsuffix c
    rw [hwire, ← List.append_assoc] at hgone
    obtain ⟨hpos, gpu, bid, algo, k, p, huses, hlo, hhi, htotal⟩ :=
      h c (gone ++ front) f back hgone.symm
    refine ⟨hpos, gpu, bid, algo, k, p, huses, hlo, hhi, ?_⟩
    rw [hsame c gpu bid algo huses]
    exact htotal

end Collective

end CollectiveSim.Msccl
