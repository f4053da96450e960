import CollectiveSim.Msccl.Confluence
import CollectiveSim.Msccl.Wakeup

/-!
# What one move can do

Where no assertion of a call fails, every move of a collective takes one of ten forms. What holds
over whole runs is read off them.
-/

namespace CollectiveSim.Msccl

open Framework Interpreter

/-- The transfer is of an implemented type, no assertion in its call fails, and what it reads and
writes ends inside its buffers. A message has bytes: a socket never reports an empty one as sent. -/
def MscclTransfer.Callable (cfg : AppConfig) (gpu : Nat) (tb : MscclThreadBlock)
    (tran : MscclTransfer) : Prop :=
  match tran.type with
  | .send => 0 ≤ tb.sendpeer ∧ 0 ≤ tran.dstoffset ∧ (tran.source cfg).Allocated cfg gpu ∧
      0 < cfg.bytes tran.count
  | .recv | .recvReduceCopy => 0 ≤ tb.recvpeer ∧ 0 ≤ tran.dstoffset ∧
      (tran.target cfg).Allocated cfg gpu ∧ 0 < cfg.bytes tran.count
  | .localCopy => (tran.target cfg).Allocated cfg gpu ∧ (tran.source cfg).Allocated cfg gpu
  | .recvCopySend | .recvReduceSend | .recvReduceCopySend | .reduce | .resAdd => False

/-- All calls succeed, and what a connection carries fits the 32-bit size of a staging buffer. -/
structure Runnable (cfg : AppConfig) (algos : Nat → Option MscclAlgorithm)
    (counts : ConnId → List Nat) : Prop where
  callable : ∀ (op : Op) (tran : MscclTransfer), op.transfer algos = some tran →
    tran.Callable cfg op.gpu (op.tb algos)
  bytes_lt : ∀ c, bytesBefore cfg counts c (counts c).length < 2 ^ 32

namespace Runnable

variable {cfg : AppConfig} {algos : Nat → Option MscclAlgorithm} {counts : ConnId → List Nat}
  {op : Op} {tran : MscclTransfer} {kind : RecvOp}

theorem of_send (h : Runnable cfg algos counts) (htran : op.transfer algos = some tran)
    (htype : tran.type = .send) :
    0 ≤ (op.tb algos).sendpeer ∧ 0 ≤ tran.dstoffset ∧ (tran.source cfg).Allocated cfg op.gpu ∧
      0 < cfg.bytes tran.count := by
  have hcall := h.callable op tran htran
  rwa [MscclTransfer.Callable, htype] at hcall

theorem of_recv (h : Runnable cfg algos counts) (htran : op.transfer algos = some tran)
    (htype : tran.type = kind.type) :
    0 ≤ (op.tb algos).recvpeer ∧ 0 ≤ tran.dstoffset ∧ (tran.target cfg).Allocated cfg op.gpu ∧
      0 < cfg.bytes tran.count := by
  have hcall := h.callable op tran htran
  rw [MscclTransfer.Callable, htype] at hcall
  cases kind <;> exact hcall

theorem of_copy (h : Runnable cfg algos counts) (htran : op.transfer algos = some tran)
    (htype : tran.type = .localCopy) :
    (tran.target cfg).Allocated cfg op.gpu ∧ (tran.source cfg).Allocated cfg op.gpu := by
  have hcall := h.callable op tran htran
  rwa [MscclTransfer.Callable, htype] at hcall

theorem on_sending (h : Runnable cfg algos counts) (htran : op.transfer algos = some tran)
    (htype : tran.type = .send) :
    op.on algos .sending (Collective.sendConn op.gpu (op.tb algos)) = true := by
  refine Op.on_eq_true.mpr ⟨tran, htran, _, Op.slot_eq_some.mpr ⟨⟨?_, ?_⟩, rfl⟩, rfl⟩
  · rw [htype]
    rfl
  · exact (h.of_send htran htype).1

theorem on_receiving (h : Runnable cfg algos counts) (htran : op.transfer algos = some tran)
    (htype : tran.type = kind.type) :
    op.on algos .receiving (Collective.recvConn op.gpu (op.tb algos)) = true := by
  refine Op.on_eq_true.mpr ⟨tran, htran, _, Op.slot_eq_some.mpr ⟨⟨?_, ?_⟩, rfl⟩, rfl⟩
  · rw [htype]
    exact kind.has_receiving
  · exact (h.of_recv htran htype).1

theorem allImplemented (h : Runnable cfg algos counts) {gpu : Nat} {algo : MscclAlgorithm}
    (halgo : algos gpu = some algo) : AllImplemented algo := by
  intro bid hbid tran hmem
  obtain ⟨sid, hsid⟩ := List.getElem?_of_mem hmem
  have htran : (⟨gpu, bid, sid⟩ : Op).transfer algos = some tran :=
    Op.transfer_eq_some.mpr ⟨algo, halgo, hbid, Op.tb_eq halgo, hsid⟩
  have hcall := h.callable _ tran htran
  rw [MscclTransfer.Callable] at hcall
  cases htype : tran.type <;> rw [htype] at hcall <;> first | exact trivial | exact hcall

end Runnable

namespace Collective

/-- All that a move can do. -/
inductive Change (cfg : AppConfig) (algos : Nat → Option MscclAlgorithm) (s : Collective) :
    Collective → Prop
  | control {gpu : Nat} {algo : MscclAlgorithm} {e : Event} {i : Interpreter}
      (halgo : algos gpu = some algo) (hrun : ∀ bid sid, e ≠ .runStep bid sid)
      (hi : Step algo (s.interp gpu) (.fire e) i) :
      Change cfg algos s { s with interp := Function.update s.interp gpu i }
  | send {u : Op} {algo : MscclAlgorithm} {tran : MscclTransfer} {c : ConnId} {i : Interpreter}
      {captured : Option (List UInt8)} (halgo : algos u.gpu = some algo)
      (htran : u.transfer algos = some tran) (htype : tran.type = .send)
      (hon : u.on algos .sending c = true) (hqueue : (s.sending c).queue = [])
      (hi : Step algo (s.interp u.gpu) (.fire (.runStep u.bid u.sid)) i) :
      Change cfg algos s { s with
        interp := Function.update s.interp u.gpu i
        sending := Function.update s.sending c
          ⟨[⟨u.bid, u.sid, tran.source cfg, 0, captured⟩], (s.sending c).wire⟩ }
  | copy {u : Op} {algo : MscclAlgorithm} {tran : MscclTransfer} {i j : Interpreter}
      {memory : Nat → Memory} (halgo : algos u.gpu = some algo)
      (htran : u.transfer algos = some tran) (htype : tran.type = .localCopy)
      (hi : Step algo (s.interp u.gpu) (.fire (.runStep u.bid u.sid)) i)
      (hj : Step algo i (.finish u.bid u.sid) j) :
      Change cfg algos s { s with interp := Function.update s.interp u.gpu j, memory := memory }
  | wait {u : Op} {algo : MscclAlgorithm} {tran : MscclTransfer} {kind : RecvOp} {c : ConnId}
      {i : Interpreter} {held : List UInt8} {memory : Nat → Memory}
      (halgo : algos u.gpu = some algo) (htran : u.transfer algos = some tran)
      (htype : tran.type = kind.type) (hon : u.on algos .receiving c = true)
      (hpeer : s.receiving c = ⟨[], held⟩)
      (hi : Step algo (s.interp u.gpu) (.fire (.runStep u.bid u.sid)) i) :
      Change cfg algos s { s with
        interp := Function.update s.interp u.gpu i
        memory := memory
        receiving := Function.update s.receiving c ⟨[tran.pending cfg u.bid u.sid kind held], []⟩ }
  | claim {u : Op} {algo : MscclAlgorithm} {tran : MscclTransfer} {kind : RecvOp} {c : ConnId}
      {i j : Interpreter} {held rest : List UInt8} {memory : Nat → Memory}
      (halgo : algos u.gpu = some algo) (htran : u.transfer algos = some tran)
      (htype : tran.type = kind.type) (hon : u.on algos .receiving c = true)
      (hpeer : s.receiving c = ⟨[], held⟩)
      (hi : Step algo (s.interp u.gpu) (.fire (.runStep u.bid u.sid)) i)
      (hj : Step algo i (.finish u.bid u.sid) j) :
      Change cfg algos s { s with
        interp := Function.update s.interp u.gpu j
        memory := memory
        receiving := Function.update s.receiving c ⟨[], rest⟩ }
  | emit {u : Op} {tran : MscclTransfer} {c : ConnId} {m : Message} {n : Nat} {payload : List UInt8}
      (htran : u.transfer algos = some tran) (hon : u.on algos .sending c = true) (hruns : s.Runs u)
      (hqueue : (s.sending c).queue = [m]) (hsource : m.source = tran.source cfg)
      (hpos : 0 < n) (hle : m.emitted + n ≤ m.source.size) (hlen : payload.length = n) :
      Change cfg algos s { s with
        sending := Function.update s.sending c
          ⟨[{ m with emitted := m.emitted + n }], (s.sending c).wire ++ [payload]⟩ }
  | sent {u : Op} {algo : MscclAlgorithm} {tran : MscclTransfer} {c : ConnId} {m : Message}
      {i : Interpreter} (halgo : algos u.gpu = some algo) (htran : u.transfer algos = some tran)
      (hon : u.on algos .sending c = true) (hqueue : (s.sending c).queue = [m])
      (hall : m.emitted = m.source.size) (hi : Step algo (s.interp u.gpu) (.finish u.bid u.sid) i) :
      Change cfg algos s { s with
        interp := Function.update s.interp u.gpu i
        sending := Function.update s.sending c ⟨[], (s.sending c).wire⟩ }
  | store {c : ConnId} {payload held : List UInt8} {wire : List (List UInt8)}
      (hwire : (s.sending c).wire = payload :: wire) (hpeer : s.receiving c = ⟨[], held⟩) :
      Change cfg algos s { s with
        sending := Function.update s.sending c ⟨(s.sending c).queue, wire⟩
        receiving := Function.update s.receiving c ⟨[], held ++ payload⟩ }
  | fill {u : Op} {tran : MscclTransfer} {kind : RecvOp} {c : ConnId} {payload held : List UInt8}
      {wire : List (List UInt8)} {memory : Nat → Memory}
      (hwire : (s.sending c).wire = payload :: wire)
      (hpeer : s.receiving c = ⟨[tran.pending cfg u.bid u.sid kind held], []⟩) :
      Change cfg algos s { s with
        memory := memory
        sending := Function.update s.sending c ⟨(s.sending c).queue, wire⟩
        receiving := Function.update s.receiving c
          ⟨[tran.pending cfg u.bid u.sid kind (held ++ payload)], []⟩ }
  | land {u : Op} {algo : MscclAlgorithm} {tran : MscclTransfer} {kind : RecvOp} {c : ConnId}
      {i : Interpreter} {payload : List UInt8} {wire : List (List UInt8)} {memory : Nat → Memory}
      (halgo : algos u.gpu = some algo) (htran : u.transfer algos = some tran)
      (htype : tran.type = kind.type) (hon : u.on algos .receiving c = true)
      (hwire : (s.sending c).wire = payload :: wire)
      (hi : Step algo (s.interp u.gpu) (.finish u.bid u.sid) i) :
      Change cfg algos s { s with
        interp := Function.update s.interp u.gpu i
        memory := memory
        sending := Function.update s.sending c ⟨(s.sending c).queue, wire⟩
        receiving := Function.update s.receiving c ⟨[], []⟩ }

theorem emit_pos {s s' : Collective} {c : ConnId} {n : Nat} (h : s.emit c n = some s') : 0 < n := by
  rw [emit] at h
  split at h
  · cases h
  · split at h
    · rename_i hn
      exact hn.1
    · cases h

end Collective

section

variable {cfg : AppConfig} {nRanks : Nat} {root : XmlNode} {algos : Nat → Option MscclAlgorithm}
  {counts : ConnId → List Nat} {start : Nat → Memory} {s s' : Collective} {order : List Op}
  {gpu bid sid : Nat} {c : ConnId}

theorem Simulates.free (h : Simulates cfg root algos counts start s order)
    (hprog : Program cfg nRanks root algos counts) {u : Op} {algo : MscclAlgorithm} {i : Interpreter}
    (halgo : algos u.gpu = some algo)
    (hi : Step algo (s.interp u.gpu) (.fire (.runStep u.bid u.sid)) i) :
    (u.on algos .sending c = true → (s.sending c).queue = []) ∧
      (u.on algos .receiving c = true → ∃ held, s.receiving c = ⟨[], held⟩) := by
  have hmem : .runStep u.bid u.sid ∈ (s.interp u.gpu).pending := by
    cases hi with
    | start hmem htran htype => exact hmem
    | ignore hmem htran htype => exact hmem
  have hidle := ((h.tracked.reached _ _ halgo).accounted.idle_of_runStep hmem).1
  obtain ⟨taken, held, unsent, hqueued, hheld, -, -⟩ := h.linked c
  constructor
  · intro hon
    exact (hqueued.eq_nil fun op hop => Tracked.not_runs_of_idle hprog.paired hon hidle hop).1
  · intro hon
    exact ⟨held, hheld.eq_unclaimed fun op hop => Tracked.not_runs_of_idle hprog.paired hon hidle hop⟩

theorem Simulates.change_recv (h : Simulates cfg root algos counts start s order)
    (hprog : Program cfg nRanks root algos counts) (hcalls : Runnable cfg algos counts) {u : Op}
    {algo : MscclAlgorithm} {tran : MscclTransfer} {kind : RecvOp} {i : Interpreter}
    (halgo : algos u.gpu = some algo) (htran : u.transfer algos = some tran)
    (htype : tran.type = kind.type)
    (hi : Step algo (s.interp u.gpu) (.fire (.runStep u.bid u.sid)) i)
    (hstep : Collective.recv cfg algos u.gpu u.bid u.sid kind (u.tb algos) tran
      { s with interp := Function.update s.interp u.gpu i } = some s') :
    Collective.Change cfg algos s s' := by
  have hon := hcalls.on_receiving htran htype
  obtain ⟨held, hpeer⟩ := (h.free hprog halgo hi).2 hon
  rw [Collective.recv, if_neg (Int.not_lt.mpr (hcalls.of_recv htran htype).1)] at hstep
  simp only [Option.bind_eq_bind, Option.bind_eq_some_iff] at hstep
  obtain ⟨r, hclaim, hstep⟩ := hstep
  rw [hpeer] at hclaim
  rcases claimOrRegister_cases hclaim with ⟨-, hnone, hrest, -⟩ | ⟨-, hsome, hrest, -⟩
  · rcases Collective.received_cases hstep with ⟨-, rfl⟩ | ⟨_, _, _, _, hdone, -⟩
    · rw [hrest]
      exact .wait halgo htran htype hon hpeer hi
    · rw [hnone] at hdone
      cases hdone
  · rcases Collective.received_cases hstep with ⟨hdone, -⟩ | ⟨_, _, algo', j, hdone, halgo', hj, rfl⟩
    · rw [hsome] at hdone
      cases hdone
    · rw [hsome] at hdone
      cases hdone
      obtain rfl := Option.some_inj.mp (halgo.symm.trans halgo')
      simp only [Collective.recvConn, Function.update_self] at hj
      rw [hrest]
      simp only [Collective.recvConn, Function.update_idem]
      exact .claim halgo htran htype hon hpeer hi hj

theorem Simulates.change_runStep (h : Simulates cfg root algos counts start s order)
    (hprog : Program cfg nRanks root algos counts) (hcalls : Runnable cfg algos counts)
    (hstep : s.fire cfg algos gpu (.runStep bid sid) = some s') :
    Collective.Change cfg algos s s' := by
  simp only [Collective.fire, Option.bind_eq_bind, Option.bind_eq_some_iff] at hstep
  obtain ⟨s₁, hinterp, algo, halgo, tran, hget, hstep⟩ := hstep
  obtain ⟨algo', i, halgo', hi, rfl⟩ := Collective.interpStep_some hinterp
  obtain rfl := Option.some_inj.mp (halgo.symm.trans halgo')
  have hmem : .runStep bid sid ∈ (s.interp gpu).pending := by
    cases hi with
    | start hmem htran htype => exact hmem
    | ignore hmem htran htype => exact hmem
  have htb : (⟨gpu, bid, sid⟩ : Op).tb algos = algo.mscclTBs bid := Op.tb_eq halgo
  have htran : (⟨gpu, bid, sid⟩ : Op).transfer algos = some tran :=
    Op.transfer_eq_some.mpr
      ⟨algo, halgo, (h.tracked.reached _ _ halgo).inRange.pending _ hmem, htb, hget⟩
  rw [← htb, Collective.startTransfer] at hstep
  rcases hprog.type_cases htran with htype | ⟨kind, htype⟩ | htype
  · rw [htype] at hstep
    obtain ⟨-, captured, -, rfl⟩ := Collective.send_some hstep
    have hon := hcalls.on_sending htran htype
    have hqueue := (h.free hprog halgo hi).1 hon
    simp only [hqueue, List.nil_append]
    exact .send halgo htran htype hon hqueue hi
  · rw [htype] at hstep
    apply h.change_recv hprog hcalls halgo htran htype hi
    cases kind <;> exact hstep
  · rw [htype] at hstep
    obtain ⟨algo', j, halgo', hj, rfl⟩ := Collective.localCopy_some hstep
    obtain rfl := Option.some_inj.mp (halgo.symm.trans halgo')
    simp only [Function.update_self] at hj
    simp only [Function.update_idem]
    exact .copy (u := ⟨gpu, bid, sid⟩) halgo htran htype hi hj

theorem Simulates.change_emit (h : Simulates cfg root algos counts start s order) {n : Nat}
    (hstep : s.emit c n = some s') : Collective.Change cfg algos s s' := by
  have hpos := Collective.emit_pos hstep
  obtain ⟨msg, rest, payload, hhead, hle, hpayload, rfl⟩ := Collective.emit_some hstep
  obtain ⟨taken, held, unsent, hqueued, -, -, -⟩ := h.linked c
  cases hqueued with
  | idle hqueue =>
      rw [hqueue] at hhead
      cases hhead
  | @busy msg op tran hqueue hop hruns htran hon hsource hemitted hcaptured =>
      rw [hqueue] at hhead
      cases hhead
      have hdata : (msg.captured.getD ((s.memory c.sender).read msg.source)).length =
          msg.source.size := by
        cases hcap : msg.captured with
        | none => exact Memory.read_length _ _
        | some data => exact hcaptured data hcap
      have hlen := congrArg List.length hpayload
      rw [List.length_append, List.length_drop, List.length_drop, hdata] at hlen
      exact .emit htran hon hruns hqueue hsource hpos hle (by omega)

theorem Simulates.change_sent (h : Simulates cfg root algos counts start s order)
    (hstep : s.sent algos c = some s') : Collective.Change cfg algos s s' := by
  obtain ⟨msg, rest, algo, i, hhead, hall, halgo, hi, rfl⟩ := Collective.sent_some hstep
  obtain ⟨taken, held, unsent, hqueued, -, -, -⟩ := h.linked c
  cases hqueued with
  | idle hqueue =>
      rw [hqueue] at hhead
      cases hhead
  | @busy msg op tran hqueue hop hruns htran hon hsource hemitted hcaptured =>
      rw [hqueue] at hhead
      cases hhead
      subst hop
      exact .sent (u := ⟨c.sender, msg.bid, msg.sid⟩) halgo htran hon hqueue hall hi

theorem Simulates.change_arrive (h : Simulates cfg root algos counts start s order)
    (hstep : s.arrive cfg algos c = some s') : Collective.Change cfg algos s s' := by
  obtain ⟨payload, wire, r, hwire, harrived, hstep⟩ := Collective.arrive_some hstep
  obtain ⟨taken, held, unsent, -, hheld, -, -⟩ := h.linked c
  cases hheld with
  | unclaimed hpeer =>
      rw [hpeer] at harrived
      obtain ⟨hmem, hpeer', hnone⟩ := onBytesArrived_unclaimed harrived
      rcases Collective.received_cases hstep with ⟨-, rfl⟩ | ⟨_, _, _, _, hsome, -⟩
      · rw [hmem, hpeer']
        simp only [Function.update_eq_self]
        exact .store hwire hpeer
      · rw [hnone] at hsome
        cases hsome
  | @pending u tran kind data hpeer hgpu hruns htran hon hkind hlt hplaced =>
      rw [hpeer] at harrived
      rcases onBytesArrived_pending hplaced harrived with
        ⟨-, hnone, hpeer', -⟩ | ⟨-, hsome, hpeer', -⟩
      · rcases Collective.received_cases hstep with ⟨-, rfl⟩ | ⟨_, _, _, _, hdone, -⟩
        · rw [hpeer']
          exact .fill hwire hpeer
        · rw [hnone] at hdone
          cases hdone
      · rcases Collective.received_cases hstep with ⟨hdone, -⟩ | ⟨_, _, algo, i, hdone, halgo, hi, rfl⟩
        · rw [hsome] at hdone
          cases hdone
        · rw [hsome] at hdone
          cases hdone
          rw [← hgpu] at halgo hi
          rw [hpeer', ← hgpu]
          exact .land halgo htran hkind hon hwire hi

/-- Every move takes one of these forms. -/
theorem Simulates.change (h : Simulates cfg root algos counts start s order)
    (hprog : Program cfg nRanks root algos counts) (hcalls : Runnable cfg algos counts) {move : Move}
    (hstep : s.step cfg algos move = some s') : Collective.Change cfg algos s s' := by
  cases move with
  | emit c n => exact h.change_emit hstep
  | sent c => exact h.change_sent hstep
  | arrive c => exact h.change_arrive hstep
  | fire gpu e =>
      cases e with
      | runStep bid sid => exact h.change_runStep hprog hcalls hstep
      | tryScheduleNextStep bid =>
          obtain ⟨s₁, hinterp, hs⟩ := Option.bind_eq_some_iff.mp hstep
          cases hs
          obtain ⟨algo, i, halgo, hi, rfl⟩ := Collective.interpStep_some hinterp
          exact .control halgo (fun _ _ heq => by cases heq) hi
      | stepCompletion bid sid =>
          obtain ⟨s₁, hinterp, hs⟩ := Option.bind_eq_some_iff.mp hstep
          cases hs
          obtain ⟨algo, i, halgo, hi, rfl⟩ := Collective.interpStep_some hinterp
          exact .control halgo (fun _ _ heq => by cases heq) hi

end

end CollectiveSim.Msccl
