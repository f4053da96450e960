import CollectiveSim.Msccl.BufferBounds
import CollectiveSim.Msccl.Remaining

/-!
# A collective comes to its end

Every run is bounded. A run that can go no further has completed all transfers, if an order of the
transfers exists in which each comes behind those that it waits for; and if one run completes, such an
order exists.
-/

namespace CollectiveSim.Msccl

open Framework Interpreter

/-- What a transfer waits for has the property: the transfers before it in its thread block, for each
dependence one that publishes a flag as high, and the send of its message. -/
structure Op.Met (cfg : AppConfig) (algos : Nat → Option MscclAlgorithm) (P : Op → Prop) (op : Op)
    (tran : MscclTransfer) : Prop where
  program : ∀ sid < op.sid, P ⟨op.gpu, op.bid, sid⟩
  dependence : ∀ dep ∈ (op.tb algos).dependences tran, computeFlag 0 0 dep.2 ≤ -1 ∨
    ∃ a : Op, a.gpu = op.gpu ∧ (a.transfer algos).isSome ∧ dep.1 = a.bid ∧
      computeFlag 0 0 dep.2 ≤ (a.tb algos).start (a.sid + 1) - 1 ∧ P a
  message : ∀ slot, op.takes cfg algos tran = some slot →
    ∃ a tran', a.transfer algos = some tran' ∧ a.slot algos .sending tran' = some slot ∧ P a

theorem Op.Met.mono {cfg : AppConfig} {algos : Nat → Option MscclAlgorithm} {P Q : Op → Prop}
    {op : Op} {tran : MscclTransfer} (h : op.Met cfg algos P tran) (hPQ : ∀ a, P a → Q a) :
    op.Met cfg algos Q tran where
  program sid hsid := hPQ _ (h.program sid hsid)
  dependence dep hdep := by
    rcases h.dependence dep hdep with hlow | ⟨a, hgpu, ha, hbid, hhigh, hP⟩
    · exact Or.inl hlow
    · exact Or.inr ⟨a, hgpu, ha, hbid, hhigh, hPQ a hP⟩
  message slot hslot := by
    obtain ⟨a, tran', ha, hsend, hP⟩ := h.message slot hslot
    exact ⟨a, tran', ha, hsend, hPQ a hP⟩

/-- The transfers can be ranked so that each stands behind those that it waits for. -/
def Feasible (cfg : AppConfig) (algos : Nat → Option MscclAlgorithm) : Prop :=
  ∃ rank : Op → Nat, ∀ (op : Op) (tran : MscclTransfer), op.transfer algos = some tran →
    op.Met cfg algos (fun a => rank a < rank op) tran

namespace Collective

/-- What holds in every state of a run. -/
structure Ongoing (cfg : AppConfig) (root : XmlNode) (algos : Nat → Option MscclAlgorithm)
    (counts : ConnId → List Nat) (start : Nat → Memory) (s : Collective) : Prop where
  simulates : ∃ order, Simulates cfg root algos counts start s order
  alive : ∀ gpu algo, algos gpu = some algo → Alive algo (s.interp gpu)
  waiting : Waiting algos s
  fragmented : Fragmented cfg algos counts s

/-- No move is possible. -/
def Stopped (cfg : AppConfig) (algos : Nat → Option MscclAlgorithm) (s : Collective) : Prop :=
  ∀ move, s.step cfg algos move = none

section

variable {cfg : AppConfig} {nRanks : Nat} {root : XmlNode} {algos : Nat → Option MscclAlgorithm}
  {counts : ConnId → List Nat} {start : Nat → Memory} {s s' : Collective} {c : ConnId}
  {gpu bid sid : Nat} {algo : MscclAlgorithm}

theorem ongoing_initial (hprog : Program cfg nRanks root algos counts) (start : Nat → Memory) :
    Ongoing cfg root algos counts start (initial algos start) where
  simulates := ⟨[], simulates_initial hprog start⟩
  alive gpu algo halgo := by
    have hok := (hprog.accepted _ _ halgo).isValid
    have hinit := (interpretAlgo_eq_some algo).mpr ⟨⟨hok, hprog.blocks _ _ halgo⟩, rfl⟩
    apply Alive.initial
    simp only [initial, halgo, Option.bind_some, hinit, Option.getD_some]
  waiting v htran hruns := by
    obtain ⟨tran, htran⟩ := Option.isSome_iff_exists.mp htran
    obtain ⟨algo, halgo, -, -, -⟩ := Op.transfer_eq_some.mp htran
    have hok := (hprog.accepted _ _ halgo).isValid
    have hinit := (interpretAlgo_eq_some algo).mpr ⟨⟨hok, hprog.blocks _ _ halgo⟩, rfl⟩
    simp only [Runs, initial, halgo, Option.bind_some, hinit, Option.getD_some] at hruns
    cases hruns
  fragmented c front f back hwire := by
    have hnil : ([] : List (List UInt8)) = front ++ f :: back := hwire
    simp at hnil

theorem Ongoing.step (h : Ongoing cfg root algos counts start s)
    (hprog : Program cfg nRanks root algos counts) (hcalls : Runnable cfg algos counts) {move : Move}
    (hstep : s.step cfg algos move = some s') : Ongoing cfg root algos counts start s' := by
  obtain ⟨order, hsim⟩ := h.simulates
  have hchange := hsim.change hprog hcalls hstep
  have himp : ∀ gpu algo, algos gpu = some algo → AllImplemented algo :=
    fun _ _ halgo => hcalls.allImplemented halgo
  have hbound : ∀ gpu algo, algos gpu = some algo → Bounded algo :=
    fun _ _ halgo => (hprog.accepted _ _ halgo).bounded (hprog.plain _ _ halgo)
  exact {
    simulates := hsim.step hprog hstep
    alive := hchange.lift
      (fun _ _ halgo _ _ _ hi hstep => hi.step (hbound _ _ halgo) (himp _ _ halgo) hstep) h.alive
    waiting := h.waiting.step hprog.paired himp hbound hsim.tracked.reached hchange
    fragmented := h.fragmented.step hprog.paired himp hbound hsim.tracked.reached hchange }

theorem Ongoing.run (hprog : Program cfg nRanks root algos counts)
    (hcalls : Runnable cfg algos counts) {moves : List Move}
    (hrun : Run (Collective.step cfg algos) anyEvent (initial algos start) moves s) :
    Ongoing cfg root algos counts start s := by
  have hkeep : ∀ s move t, Ongoing cfg root algos counts start s → anyEvent s move →
      Collective.step cfg algos s move = some t → Ongoing cfg root algos counts start t :=
    fun _ _ _ h _ hstep => h.step hprog hcalls hstep
  exact hrun.invariant hkeep (ongoing_initial hprog start)

/-! ### What can happen -/

theorem interpStep_finish (halgo : algos gpu = some algo)
    (hmem : (bid, sid) ∈ (s.interp gpu).running) :
    ∃ s', s.interpStep algos gpu (.finish bid sid) = some s' := by
  rw [interpStep, halgo, Option.bind_eq_bind, Option.bind_some, Interpreter.step, if_pos hmem]
  exact ⟨_, rfl⟩

theorem received_isSome {r : RecvResult} (halgo : algos c.receiver = some algo)
    (hdone : ∀ bid sid, r.completed = some (bid, sid) → (bid, sid) ∈ (s.interp c.receiver).running) :
    ∃ s', s.received algos c r = some s' := by
  rw [received]
  cases hcompleted : r.completed with
  | none => exact ⟨_, rfl⟩
  | some step =>
      obtain ⟨bid, sid⟩ := step
      exact interpStep_finish halgo (hdone bid sid hcompleted)

end

end Collective

section

variable {cfg : AppConfig} {gpu bid sid : Nat} {tran : MscclTransfer} {kind : RecvOp}

theorem stageBytes_isSome (kind : RecvOp)
    (hptr : (cfg.getBufferPtr gpu tran.dstbuffer tran.dstoffset).isSome = true) (pos : Nat)
    (payload : List UInt8) (m : Memory) :
    ∃ m', stageBytes cfg gpu kind tran.dstbuffer tran.dstoffset pos payload m = some m' := by
  obtain ⟨dst, hdst⟩ := Option.isSome_iff_exists.mp hptr
  cases kind with
  | recv =>
      rw [stageBytes, hdst]
      exact ⟨_, rfl⟩
  | recvReduceCopy => exact ⟨m, rfl⟩

theorem reduceStaged_isSome (kind : RecvOp)
    (hptr : (cfg.getBufferPtr gpu tran.dstbuffer tran.dstoffset).isSome = true)
    (scratchBuf : List UInt8) (m : Memory) :
    ∃ m', reduceStaged cfg gpu kind tran.dstbuffer tran.dstoffset scratchBuf m = some m' := by
  obtain ⟨dst, hdst⟩ := Option.isSome_iff_exists.mp hptr
  cases kind with
  | recv => exact ⟨m, rfl⟩
  | recvReduceCopy =>
      rw [reduceStaged, hdst]
      exact ⟨_, rfl⟩

theorem placeStaged_isSome (kind : RecvOp)
    (hptr : (cfg.getBufferPtr gpu tran.dstbuffer tran.dstoffset).isSome = true)
    (unclaimed data : List UInt8) (m : Memory) :
    ∃ m', placeStaged cfg gpu kind tran.dstbuffer tran.dstoffset unclaimed data m = some m' := by
  rw [placeStaged]
  split
  · exact ⟨m, rfl⟩
  · obtain ⟨m₁, hm₁⟩ := stageBytes_isSome kind hptr 0 data m
    rw [hm₁]
    exact reduceStaged_isSome kind hptr data m₁

theorem claimOrRegister_isSome (bid sid : Nat) (kind : RecvOp) (hoffset : 0 ≤ tran.dstoffset)
    (hptr : (cfg.getBufferPtr gpu tran.dstbuffer tran.dstoffset).isSome = true) (bytes : Nat)
    (m : Memory) (peer : PeerRecv) :
    ∃ r, claimOrRegisterPendingRecv cfg gpu bid sid bytes tran.dstbuffer tran.dstoffset kind m peer =
      some r ∧ ∀ step, r.completed = some step → step = (bid, sid) := by
  rw [claimOrRegisterPendingRecv]
  simp only
  rw [if_neg (Int.not_lt.mpr hoffset)]
  split
  · obtain ⟨m₁, hm₁⟩ :=
      placeStaged_isSome kind hptr peer.unclaimedBytes (peer.unclaimedBytes.take bytes) m
    rw [hm₁]
    exact ⟨_, rfl, fun step hstep => (Option.some_inj.mp hstep).symm⟩
  · split
    · obtain ⟨m₁, hm₁⟩ := stageBytes_isSome kind hptr 0 peer.unclaimedBytes m
      rw [hm₁]
      exact ⟨_, rfl, fun step hstep => by cases hstep⟩
    · exact ⟨_, rfl, fun step hstep => by cases hstep⟩

theorem onBytesArrived_pending_isSome (bid sid : Nat) (kind : RecvOp)
    (hptr : (cfg.getBufferPtr gpu tran.dstbuffer tran.dstoffset).isSome = true)
    {data payload : List UInt8} (hfits : data.length + payload.length ≤ cfg.bytes tran.count)
    (m : Memory) : ∃ r, onBytesArrivedFromPeer cfg gpu payload m
      ⟨[tran.pending cfg bid sid kind data], []⟩ = some r ∧
        ∀ step, r.completed = some step → step = (bid, sid) := by
  obtain ⟨m₁, hm₁⟩ := stageBytes_isSome kind hptr data.length payload m
  obtain ⟨m₂, hm₂⟩ :=
    reduceStaged_isSome kind hptr (keepBack kind (keepBack kind [] data) payload) m₁
  rw [onBytesArrivedFromPeer]
  simp only [MscclTransfer.pending]
  rw [hm₁, Option.bind_eq_bind, Option.bind_some]
  by_cases hlt : data.length + payload.length < cfg.bytes tran.count
  · simp only [hlt, if_true]
    exact ⟨_, rfl, fun step hstep => by cases hstep⟩
  · have hgt : ¬ data.length + payload.length > cfg.bytes tran.count := Nat.not_lt.mpr hfits
    simp only [hlt, hgt, if_false, hm₂]
    exact ⟨_, rfl, fun step hstep => (Option.some_inj.mp hstep).symm⟩

end

namespace Collective

section

variable {cfg : AppConfig} {nRanks : Nat} {root : XmlNode} {algos : Nat → Option MscclAlgorithm}
  {counts : ConnId → List Nat} {start : Nat → Memory} {s s' : Collective} {c : ConnId}
  {gpu bid sid : Nat} {algo : MscclAlgorithm} {tran : MscclTransfer}

theorem recv_isSome (hcalls : Runnable cfg algos counts) {op : Op} (kind : RecvOp)
    (halgo : algos op.gpu = some algo) (htran : op.transfer algos = some tran)
    (htype : tran.type = kind.type) (hruns : s.Runs op) :
    ∃ s', s.recv cfg algos op.gpu op.bid op.sid kind (op.tb algos) tran = some s' := by
  obtain ⟨hpeer, hoffset, htarget, -⟩ := hcalls.of_recv htran htype
  rw [recv, if_neg (Int.not_lt.mpr hpeer)]
  obtain ⟨r, hr, hdone⟩ := claimOrRegister_isSome op.bid op.sid kind hoffset
    htarget.getBufferPtr_isSome
    (cfg.bytes tran.count) (s.memory op.gpu) (s.receiving (recvConn op.gpu (op.tb algos)))
  simp only [hr, Option.bind_eq_bind, Option.bind_some]
  apply received_isSome (c := recvConn op.gpu (op.tb algos)) halgo
  intro bid sid hstep
  cases hdone _ hstep
  exact hruns

theorem startTransfer_isSome (hcalls : Runnable cfg algos counts) {op : Op}
    (halgo : algos op.gpu = some algo) (htran : op.transfer algos = some tran) (hruns : s.Runs op) :
    ∃ s', s.startTransfer cfg algos op.gpu op.bid op.sid (op.tb algos) tran = some s' := by
  rw [startTransfer]
  have hcall := hcalls.callable op tran htran
  rw [MscclTransfer.Callable] at hcall
  cases htype : tran.type with
  | send =>
      obtain ⟨hpeer, hoffset, hsource, -⟩ := hcalls.of_send htran htype
      obtain ⟨src, hsrc⟩ := Option.isSome_iff_exists.mp hsource.getBufferPtr_isSome
      simp only
      rw [send, if_neg (by omega), hsrc]
      exact ⟨_, rfl⟩
  | recv => exact recv_isSome hcalls .recv halgo htran htype hruns
  | recvReduceCopy => exact recv_isSome hcalls .recvReduceCopy halgo htran htype hruns
  | localCopy =>
      obtain ⟨htarget, hsource⟩ := hcalls.of_copy htran htype
      obtain ⟨dst, hdst⟩ := Option.isSome_iff_exists.mp htarget.getBufferPtr_isSome
      obtain ⟨src, hsrc⟩ := Option.isSome_iff_exists.mp hsource.getBufferPtr_isSome
      simp only
      rw [localCopy, hdst, Option.bind_eq_bind, Option.bind_some, hsrc, Option.bind_some]
      exact interpStep_finish halgo hruns
  | recvCopySend | recvReduceSend | recvReduceCopySend | reduce | resAdd =>
      rw [htype] at hcall
      exact hcall.elim

/-- No assertion fails in a scheduled event. -/
theorem Ongoing.fire_ne_none (h : Ongoing cfg root algos counts start s)
    (hcalls : Runnable cfg algos counts) (halgo : algos gpu = some algo) {e : Event}
    (hmem : e ∈ (s.interp gpu).pending) : s.step cfg algos (.fire gpu e) ≠ none := by
  have hreached := (h.alive _ _ halgo).reached
  intro hnone
  simp only [Collective.step, fire, interpStep, halgo, Option.bind_eq_bind, Option.bind_some] at hnone
  rw [Interpreter.step, if_pos hmem] at hnone
  cases e with
  | tryScheduleNextStep bid => cases hnone
  | stepCompletion bid sid => cases hnone
  | runStep bid sid =>
      obtain ⟨hbusy, hsid⟩ := hreached.accounted.of_runStep hmem
      have hbid := hreached.inRange.pending _ hmem
      have hlt := hreached.accounted.busy_lt bid hbusy
      rw [← hsid] at hlt
      have hget := List.getElem?_eq_getElem hlt
      have htran : (⟨gpu, bid, sid⟩ : Op).transfer algos =
          some (algo.mscclTBs bid).transfers[sid] :=
        Op.transfer_eq_some.mpr ⟨algo, halgo, hbid, Op.tb_eq halgo, hget⟩
      have himp := hcalls.allImplemented halgo bid hbid _ (List.getElem_mem hlt)
      simp only at hnone
      rw [runStep_of_implemented hget himp] at hnone
      simp only [Option.bind_some, Option.pure_def, hget] at hnone
      let i : Interpreter := { (s.interp gpu).take (.runStep bid sid) with
        running := (s.interp gpu).running ++ [(bid, sid)] }
      let t : Collective := { s with interp := Function.update s.interp gpu i }
      have hruns : t.Runs ⟨gpu, bid, sid⟩ := by
        simp only [t, i, Runs, Interpreter.Runs, Function.update_self]
        exact List.mem_append_right _ List.mem_cons_self
      obtain ⟨s', hs'⟩ := startTransfer_isSome hcalls halgo htran hruns
      rw [Op.tb_eq halgo] at hs'
      exact Option.some_ne_none s' (hs'.symm.trans hnone)

theorem Ongoing.pending_eq_nil (h : Ongoing cfg root algos counts start s)
    (hcalls : Runnable cfg algos counts) (hstop : Stopped cfg algos s)
    (halgo : algos gpu = some algo) : (s.interp gpu).pending = [] := by
  by_contra hne
  obtain ⟨e, hmem⟩ := List.exists_mem_of_ne_nil _ hne
  exact h.fire_ne_none hcalls halgo hmem (hstop (.fire gpu e))

theorem Ongoing.queue_eq_nil (h : Ongoing cfg root algos counts start s) (hstop : Stopped cfg algos s)
    (c : ConnId) : (s.sending c).queue = [] := by
  obtain ⟨order, hsim⟩ := h.simulates
  obtain ⟨taken, held, unsent, hqueued, -, -, -⟩ := hsim.linked c
  cases hqueued with
  | idle hqueue => exact hqueue
  | @busy m op tran hqueue hop hruns htran hon hsource hemitted hcaptured =>
      exfalso
      obtain ⟨algo, halgo, -, -, -⟩ := Op.transfer_eq_some.mp htran
      rcases Nat.lt_or_eq_of_le hemitted with hlt | hall
      · have hnone := hstop (.emit c 1)
        rw [Collective.step, emit, hqueue] at hnone
        simp only at hnone
        rw [if_pos ⟨Nat.one_pos, hlt⟩] at hnone
        cases hnone
      · have hnone := hstop (.sent c)
        rw [Collective.step, sent, hqueue] at hnone
        simp only at hnone
        rw [if_pos hall] at hnone
        rw [hop] at halgo hruns
        obtain ⟨s', hs'⟩ := interpStep_finish (s := { s with
          sending := Function.update s.sending c { s.sending c with queue := [] } }) halgo hruns
        exact Option.some_ne_none s' (hs'.symm.trans hnone)

theorem unsent_length {unsent : List UInt8} (h : Queued cfg algos s c unsent) :
    unsent.length = (s.sending c).unsent := by
  cases h with
  | idle hqueue =>
      rw [Connection.unsent, hqueue]
      rfl
  | @busy m op tran hqueue hop hruns htran hon hsource hemitted hcaptured =>
      have hdata : (m.captured.getD ((s.memory c.sender).read m.source)).length = m.source.size := by
        cases hcap : m.captured with
        | none => exact Memory.read_length _ _
        | some data => exact hcaptured data hcap
      rw [Connection.unsent, hqueue, List.length_drop, hdata]
      rfl

/-- The first fragment on a wire continues what the receiver holds, within one message. -/
theorem first_fragment {order : List Op} {taken held payload unsent : List UInt8}
    {back : List (List UInt8)} (hsim : Simulates cfg root algos counts start s order)
    (hpaired : Paired algos counts) (hfrag : Fragmented cfg algos counts s)
    (hwire : (s.sending c).wire = payload :: back) (hqueued : Queued cfg algos s c unsent)
    (hstream : (settled cfg algos start order).stream c (order.countP (Op.on algos .sending c)) =
      taken ++ (held ++ ((s.sending c).wire.flatten ++ unsent))) :
    0 < payload.length ∧ ∃ k, bytesBefore cfg counts c k ≤ taken.length + held.length ∧
      taken.length + held.length + payload.length ≤ bytesBefore cfg counts c (k + 1) ∧
      taken.length + held.length + payload.length ≤
        bytesBefore cfg counts c (counts c).length := by
  obtain ⟨hpos, gpu, bid, algo, k, p, huses, hlo, hhi, htotal⟩ := hfrag c [] payload back hwire
  have hlen := congrArg List.length hstream
  have hconn : sendConn gpu (algo.mscclTBs bid) = c := huses.conn
  rw [(hsim.sized c).stream_length, hsim.tracked.count _ _ _ _ _ huses, hwire, List.flatten_cons,
    List.length_append, List.length_append, List.length_append, List.length_append,
    unsent_length hqueued] at hlen
  have hall := bytesBefore_add_toSend cfg hpaired huses ((s.interp gpu).covered algo bid)
  rw [toLeave, hconn, Interpreter.toSend] at htotal
  exact ⟨hpos, k, by omega, by omega, by omega⟩

/-- A pending receive and the fragment that arrives next are of the same message. -/
theorem Ongoing.pending_room (h : Ongoing cfg root algos counts start s)
    (hprog : Program cfg nRanks root algos counts) {payload : List UInt8} {back : List (List UInt8)}
    (hwire : (s.sending c).wire = payload :: back) (hne : (s.receiving c).pendingRecvQueue ≠ []) :
    ∃ (u : Op) (tran : MscclTransfer) (kind : RecvOp) (data : List UInt8),
      s.receiving c = ⟨[tran.pending cfg u.bid u.sid kind data], []⟩ ∧ u.gpu = c.receiver ∧
      s.Runs u ∧ u.transfer algos = some tran ∧ tran.type = kind.type ∧
      data.length + payload.length ≤ cfg.bytes tran.count := by
  obtain ⟨order, hsim⟩ := h.simulates
  obtain ⟨taken, held, unsent, hqueued, hheld, htaken, hstream⟩ := hsim.linked c
  obtain ⟨hpos, k, hlo, hhi, htotal⟩ :=
    first_fragment hsim hprog.paired h.fragmented hwire hqueued hstream
  cases hheld with
  | unclaimed hpeer =>
      rw [hpeer] at hne
      exact absurd rfl hne
  | @pending u tran kind data hpeer hgpu hruns htran hon hkind hlt hplaced =>
      refine ⟨u, tran, kind, held, hpeer, hgpu, hruns, htran, hkind, ?_⟩
      obtain ⟨algo, halgo, -, -, -⟩ := Op.transfer_eq_some.mp htran
      obtain ⟨tran', htran', slot, hslot, rfl⟩ := Op.on_eq_true.mp hon
      obtain rfl := Option.some_inj.mp (htran.symm.trans htran')
      have hnosend : (algo.mscclTBs u.bid).isSend u.sid = false := by
        rw [Op.isSend_eq htran halgo]
        apply decide_eq_false
        rw [hkind]
        exact kind.type_ne_send
      have hcovered := (hsim.tracked.reached _ _ halgo).accounted.covered_of_running hruns
      rw [hnosend, if_neg Bool.false_ne_true] at hcovered
      have hindex := hsim.tracked.index_of_next halgo htran hslot hcovered
      have hsize : msgSize cfg counts slot.conn slot.index = cfg.bytes tran.count :=
        hprog.paired.msgSize_eq htran hslot
      rw [hindex] at htaken
      have hnext := bytesBefore_succ cfg counts slot.conn slot.index
      rw [hsize] at hnext
      have hk : k = slot.index := by
        rcases Nat.lt_trichotomy k slot.index with hbelow | heq | habove
        · have hmono : bytesBefore cfg counts slot.conn (k + 1) ≤
              bytesBefore cfg counts slot.conn slot.index := bytesBefore_mono hbelow
          omega
        · exact heq
        · have hmono : bytesBefore cfg counts slot.conn (slot.index + 1) ≤
              bytesBefore cfg counts slot.conn k := bytesBefore_mono habove
          omega
      subst hk
      omega

/-- No assertion fails when a fragment arrives. -/
theorem Ongoing.arrive_ne_none (h : Ongoing cfg root algos counts start s)
    (hprog : Program cfg nRanks root algos counts) (hcalls : Runnable cfg algos counts)
    (hne : (s.sending c).wire ≠ []) : s.step cfg algos (.arrive c) ≠ none := by
  obtain ⟨payload, back, hwire⟩ := List.exists_cons_of_ne_nil hne
  intro hnone
  rw [Collective.step, arrive, hwire] at hnone
  simp only at hnone
  by_cases hempty : (s.receiving c).pendingRecvQueue = []
  · obtain ⟨order, hsim⟩ := h.simulates
    obtain ⟨taken, held, unsent, hqueued, hheld, -, hstream⟩ := hsim.linked c
    obtain ⟨-, k, -, -, htotal⟩ :=
      first_fragment hsim hprog.paired h.fragmented hwire hqueued hstream
    cases hheld with
    | unclaimed hpeer =>
        have hroom : held.length + payload.length < 2 ^ 32 := by
          have hbytes := hcalls.bytes_lt c
          omega
        rw [hpeer, onBytesArrivedFromPeer] at hnone
        simp only [if_pos hroom] at hnone
        cases hnone
    | pending hpeer =>
        rw [hpeer] at hempty
        cases hempty
  · obtain ⟨u, tran, kind, data, hpeer, hgpu, hruns, htran, hkind, hroom⟩ :=
      h.pending_room hprog hwire hempty
    obtain ⟨algo, halgo, -, -, -⟩ := Op.transfer_eq_some.mp htran
    obtain ⟨-, -, htarget, -⟩ := hcalls.of_recv htran hkind
    rw [hgpu] at htarget
    obtain ⟨r, hr, hdone⟩ := onBytesArrived_pending_isSome u.bid u.sid kind
      htarget.getBufferPtr_isSome hroom (s.memory c.receiver)
    rw [hpeer, hr, Option.bind_eq_bind, Option.bind_some] at hnone
    have halgo' : algos c.receiver = some algo := by rw [← hgpu, halgo]
    let conn : Connection := { s.sending c with wire := back }
    let t : Collective := { s with sending := Function.update s.sending c conn }
    have hruns' : ∀ bid sid, r.completed = some (bid, sid) →
        (bid, sid) ∈ (t.interp c.receiver).running := by
      intro bid sid hstep
      cases hdone _ hstep
      rw [← hgpu]
      exact hruns
    obtain ⟨s', hs'⟩ := received_isSome halgo' hruns'
    exact Option.some_ne_none s' (hs'.symm.trans hnone)

/-! ### Nothing outside of the buffers is touched -/

theorem startAccess_allocated {tb : MscclThreadBlock} {a : BufferAccess}
    (h : StartAccess cfg gpu tran a) (hcall : tran.Callable cfg gpu tb) :
    a.touched.Allocated cfg a.gpu := by
  rw [MscclTransfer.Callable] at hcall
  cases h with
  | send htype hoff hstart =>
      simp only [htype] at hcall
      exact hcall.2.2.1
  | receive htype hoff hstart hn =>
      have htarget : (tran.target cfg).Allocated cfg gpu := by
        rcases htype with htype | htype
        all_goals
          simp only [htype] at hcall
          exact hcall.2.2.1
      exact (Nat.add_le_add_left hn _).trans htarget
  | copyTarget htype hsource htarget =>
      simp only [htype] at hcall
      exact hcall.1
  | copySource htype hsource htarget =>
      simp only [htype] at hcall
      exact hcall.2

/-- No move touches anything behind the end of a buffer. -/
theorem Ongoing.accesses_allocated (h : Ongoing cfg root algos counts start s)
    (hprog : Program cfg nRanks root algos counts) (hcalls : Runnable cfg algos counts) {move : Move} :
    ∀ a ∈ s.accesses cfg algos move, a.touched.Allocated cfg a.gpu := by
  intro a ha
  obtain ⟨order, hsim⟩ := h.simulates
  cases moveAccess_of_mem ha with
  | @start gpu bid sid algo tran a halgo hmem htran hstart =>
      have hbid := (h.alive _ _ halgo).reached.inRange.pending _ hmem
      have hop : (⟨gpu, bid, sid⟩ : Op).transfer algos = some tran :=
        Op.transfer_eq_some.mpr ⟨algo, halgo, hbid, Op.tb_eq halgo, htran⟩
      exact startAccess_allocated hstart (hcalls.callable _ _ hop)
  | @emit c n message rest hqueue hcaptured hend =>
      obtain ⟨taken, held, unsent, hqueued, -⟩ := hsim.linked c
      cases hqueued with
      | idle hidle => cases hqueue.symm.trans hidle
      | @busy m op tran hbusy hop hruns htran hon hsource =>
          obtain ⟨rfl, -⟩ := List.cons_eq_cons.mp (hqueue.symm.trans hbusy)
          have htype : tran.type = .send := Side.has_sending (Op.has_of_on htran hon)
          obtain ⟨-, -, hall, -⟩ := hcalls.of_send htran htype
          rw [hop] at hall
          rw [hsource] at hend
          rw [hsource]
          apply Nat.le_trans _ hall
          simp only
          omega
  | @arrive c payload wire cur rest pos n hwire hqueue hstart hend =>
      obtain ⟨u, tran, kind, data, hpeer, hgpu, hruns, htran, hkind, hroom⟩ :=
        h.pending_room hprog hwire (by rw [hqueue]; exact List.cons_ne_nil _ _)
      rw [hpeer] at hqueue
      obtain ⟨rfl, -⟩ := List.cons_eq_cons.mp hqueue
      obtain ⟨-, -, htarget, -⟩ := hcalls.of_recv htran hkind
      rw [hgpu] at htarget
      have hle : pos + n ≤ cfg.bytes tran.count := hend fun _ => hroom
      apply Nat.le_trans _ htarget
      simp only [MscclTransfer.pending, MscclTransfer.target]
      omega

theorem Ongoing.wire_eq_nil (h : Ongoing cfg root algos counts start s)
    (hprog : Program cfg nRanks root algos counts) (hcalls : Runnable cfg algos counts)
    (hstop : Stopped cfg algos s) (c : ConnId) : (s.sending c).wire = [] := by
  by_contra hne
  exact h.arrive_ne_none hprog hcalls hne (hstop (.arrive c))

/-! ### Nothing waits for ever -/

theorem flag_ge (h : Flagged algo (s.interp gpu)) (z : Int) : -1 ≤ ((s.interp gpu).tbs z).flag := by
  by_cases hknown : ∃ b : Nat, b < algo.nBlocks ∧ z = b
  · obtain ⟨b, hb, rfl⟩ := hknown
    rw [h.flag b hb]
    omega
  · rw [h.unknown z fun b hb heq => hknown ⟨b, hb, heq⟩]

/-- A transfer that its GPU has finished. -/
def Past (s : Collective) (op : Op) : Prop := op.sid < ((s.interp op.gpu).tbs op.bid).localStep

/-- Where nothing moves, no receive waits whose message has been sent. -/
theorem Ongoing.not_awaits (h : Ongoing cfg root algos counts start s)
    (hprog : Program cfg nRanks root algos counts) (hcalls : Runnable cfg algos counts)
    (hstop : Stopped cfg algos s) {op : Op} (htran : op.transfer algos = some tran)
    (hruns : s.Runs op)
    (hsent : ∀ slot, op.takes cfg algos tran = some slot → ∃ a tran', a.transfer algos = some tran' ∧
      a.slot algos .sending tran' = some slot ∧ s.Past a) : False := by
  obtain ⟨order, hsim⟩ := h.simulates
  rcases h.waiting op (by rw [htran]; rfl) hruns with ⟨c, -, hne⟩ | ⟨c, hon, hne⟩
  · exact hne (h.queue_eq_nil hstop c)
  · obtain ⟨taken, held, unsent, hqueued, hheld, htaken, hstream⟩ := hsim.linked c
    have hunsent : unsent = [] := by
      apply List.length_eq_zero_iff.mp
      rw [unsent_length hqueued, Connection.unsent, h.queue_eq_nil hstop c]
      rfl
    rw [h.wire_eq_nil hprog hcalls hstop c, hunsent] at hstream
    cases hheld with
    | unclaimed hpeer =>
        rw [hpeer] at hne
        exact hne rfl
    | @pending u tran' kind data hpeer hgpu hruns' htran' hon' hkind hlt hplaced =>
        obtain ⟨algo, halgo, -, -, -⟩ := Op.transfer_eq_some.mp htran
        have hreached := hsim.tracked.reached _ _ halgo
        -- the pending receive is the transfer itself
        obtain rfl : u = op := by
          obtain ⟨hgpu', hbid'⟩ := hprog.paired.block_eq hon' hon
          have hmine := (hreached.accounted.of_running hruns).2
          rw [Runs, hgpu', Interpreter.Runs] at hruns'
          have hother := (hreached.accounted.of_running hruns').2
          obtain ⟨gpu, bid, sid⟩ := u
          obtain ⟨gpu', bid', sid'⟩ := op
          simp only at hgpu' hbid' hmine hother
          subst hgpu' hbid'
          rw [hmine, hother]
        obtain rfl := Option.some_inj.mp (htran.symm.trans htran')
        obtain ⟨tran', htran', slot, hslot, rfl⟩ := Op.on_eq_true.mp hon
        obtain rfl := Option.some_inj.mp (htran.symm.trans htran')
        have hpos := (hcalls.of_recv htran hkind).2.2.2
        obtain ⟨a, tran', ha, hsend, hpast⟩ := hsent slot (Op.takes_eq_some.mpr ⟨hpos, hslot⟩)
        have hmem : a ∈ order := by
          obtain ⟨algo', halgo', -, -, -⟩ := Op.transfer_eq_some.mp ha
          have hle := localStep_le_covered algo' (s.interp a.gpu) a.bid
          exact (hsim.tracked.mem a).mpr ⟨algo', tran', halgo', ha, Nat.lt_of_lt_of_le hpast hle⟩
        have hcount := (hsim.tracked.mem_iff_index_lt ha hsend).mp hmem
        have hnosend : (algo.mscclTBs u.bid).isSend u.sid = false := by
          rw [Op.isSend_eq htran halgo]
          apply decide_eq_false
          rw [hkind]
          exact kind.type_ne_send
        have hcovered := hreached.accounted.covered_of_running hruns
        rw [hnosend, if_neg Bool.false_ne_true] at hcovered
        have hindex := hsim.tracked.index_of_next halgo htran hslot hcovered
        have hsize : msgSize cfg counts slot.conn slot.index = cfg.bytes tran.count :=
          hprog.paired.msgSize_eq htran hslot
        -- all bytes of the message are there
        have hlen := congrArg List.length hstream
        simp only [List.flatten_nil, List.append_nil, List.length_append] at hlen
        have hnext := bytesBefore_succ cfg counts slot.conn slot.index
        have hmono : bytesBefore cfg counts slot.conn (slot.index + 1) ≤ bytesBefore cfg counts
            slot.conn (order.countP (Op.on algos .sending slot.conn)) := bytesBefore_mono hcount
        rw [(hsim.sized slot.conn).stream_length, htaken, hindex] at hlen
        omega

/-- A stopped collective is complete, if its transfers can be ordered. -/
theorem Ongoing.complete_of_stopped (h : Ongoing cfg root algos counts start s)
    (hprog : Program cfg nRanks root algos counts) (hcalls : Runnable cfg algos counts)
    (hfeasible : Feasible cfg algos) (hstop : Stopped cfg algos s) : s.Complete algos := by
  obtain ⟨rank, hranked⟩ := hfeasible
  -- by induction on the rank: what a transfer waits for is past
  have hpast (n : Nat) : ∀ op : Op, rank op = n → (op.transfer algos).isSome → s.Past op := by
    induction n using Nat.strong_induction_on with
    | _ n ih =>
        intro op hrank htran
        obtain ⟨tran, htran⟩ := Option.isSome_iff_exists.mp htran
        obtain ⟨algo, halgo, hbid, htb, hget⟩ := Op.transfer_eq_some.mp htran
        have halive := h.alive _ _ halgo
        have hpending := h.pending_eq_nil hcalls hstop halgo
        by_contra hnot
        have hle : ((s.interp op.gpu).tbs op.bid).localStep ≤ op.sid := Nat.not_lt.mp hnot
        have hcur : ((s.interp op.gpu).tbs op.bid).localStep = op.sid := by
          by_contra hne
          have hlt : ((s.interp op.gpu).tbs op.bid).localStep < op.sid :=
            Nat.lt_of_le_of_ne hle hne
          have hsteps := (List.getElem?_eq_some_iff.mp hget).1
          let a : Op := ⟨op.gpu, op.bid, ((s.interp op.gpu).tbs op.bid).localStep⟩
          have ha : a.transfer algos = some _ := Op.transfer_eq_some.mpr
            ⟨algo, halgo, hbid, Op.tb_eq halgo, List.getElem?_eq_getElem (Nat.lt_trans hlt hsteps)⟩
          have hbelow : rank a < rank op := (hranked op tran htran).program _ hlt
          have hdone : s.Past a := ih (rank a) (by omega) a rfl (by rw [ha]; rfl)
          exact Nat.lt_irrefl _ hdone
        by_cases hbusy : ((s.interp op.gpu).tbs op.bid).busy = true
        · have hflight := halive.engaged op.bid hbusy
          rw [inflight, hpending, List.count_nil, List.count_nil, Nat.zero_add, hcur] at hflight
          have hruns : s.Runs op := List.count_pos_iff.mp hflight
          apply h.not_awaits hprog hcalls hstop htran hruns
          intro slot htakes
          obtain ⟨a, tran', ha, hsend, hbelow⟩ := (hranked op tran htran).message slot htakes
          exact ⟨a, tran', ha, hsend, ih (rank a) (by omega) a rfl (by rw [ha]; rfl)⟩
        · rw [← hcur] at hget
          rcases halive.attended op.bid tran hbid (Bool.eq_false_iff.mpr hbusy) hget with
            hmem | ⟨dep, hdep, -, hflag⟩
          · rw [hpending] at hmem
            cases hmem
          · rw [← htb] at hdep
            have hflagged := halive.reached.flagged
            rcases (hranked op tran htran).dependence dep hdep with
              hlow | ⟨a, hgpu, ha, hbid', hhigh, hbelow⟩
            · have hge := flag_ge hflagged dep.1
              omega
            · have hdone := ih (rank a) (by omega) a rfl ha
              obtain ⟨tran', ha⟩ := Option.isSome_iff_exists.mp ha
              obtain ⟨algo', halgo', habid, hatb, -⟩ := Op.transfer_eq_some.mp ha
              rw [hgpu] at halgo'
              obtain rfl := Option.some_inj.mp (halgo.symm.trans halgo')
              rw [Past, hgpu] at hdone
              have hstart : (algo.mscclTBs a.bid).start (a.sid + 1) ≤ (algo.mscclTBs a.bid).start
                  ((s.interp op.gpu).tbs a.bid).localStep := (algo.mscclTBs a.bid).start_mono hdone
              rw [hbid', hflagged.flag a.bid habid] at hflag
              rw [hatb] at hhigh
              omega
  intro gpu algo halgo bid hbid
  have hacc := (h.alive _ _ halgo).reached.accounted
  by_contra hne
  have hlt : ((s.interp gpu).tbs bid).localStep < (algo.mscclTBs bid).nsteps :=
    Nat.lt_of_le_of_ne (hacc.localStep_le bid) hne
  let op : Op := ⟨gpu, bid, ((s.interp gpu).tbs bid).localStep⟩
  have htran : op.transfer algos = some _ :=
    Op.transfer_eq_some.mpr ⟨algo, halgo, hbid, Op.tb_eq halgo, List.getElem?_eq_getElem hlt⟩
  exact Nat.lt_irrefl _ (hpast (rank op) op rfl (by rw [htran]; rfl))

end

end Collective

end CollectiveSim.Msccl
