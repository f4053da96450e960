import CollectiveSim.Msccl.Refinement

/-!
# Runs and their histories

Every move of a collective extends the history by at most one transfer, so every run has a history.
-/

namespace CollectiveSim.Msccl

open Framework Interpreter

section

variable {cfg : AppConfig} {nRanks : Nat} {root : XmlNode} {algos : Nat → Option MscclAlgorithm}
  {counts : ConnId → List Nat} {start : Nat → Memory} {algo : MscclAlgorithm}
  {s s' t : Collective} {order : List Op} {u : Op} {tran : MscclTransfer} {c : ConnId}
  {kind : RecvOp} {gpu bid sid : Nat} {tb : MscclThreadBlock}

/-! ### The calls of `RunStep` -/

theorem Collective.send_some (h : s.send cfg gpu bid sid tb tran = some s') :
    0 ≤ tb.sendpeer ∧ ∃ captured,
      (∀ data, captured = some data → data = (s.memory gpu).read (tran.source cfg)) ∧
      s' = { s with
        sending := Function.update s.sending (sendConn gpu tb) { s.sending (sendConn gpu tb) with
          queue := (s.sending (sendConn gpu tb)).queue ++
            [⟨bid, sid, tran.source cfg, 0, captured⟩] } } := by
  rw [send] at h
  split at h
  · cases h
  · rename_i hpeer
    simp only [Option.bind_eq_bind, Option.bind_eq_some_iff] at h
    obtain ⟨src, hsrc, h⟩ := h
    obtain rfl := cfg.getBufferPtr_eq_some hsrc
    cases h
    refine ⟨by omega, _, ?_, rfl⟩
    intro data hdata
    split at hdata
    · cases hdata
    · cases hdata
      rfl

theorem Collective.localCopy_some (h : s.localCopy cfg algos gpu bid sid tran = some s') :
    ∃ algo i, algos gpu = some algo ∧ Step algo (s.interp gpu) (.finish bid sid) i ∧
      s' = { s with
        interp := Function.update s.interp gpu i
        memory := Function.update s.memory gpu ((s.memory gpu).write tran.dstbuffer
          (cfg.bufferOffset tran.dstoffset) ((s.memory gpu).read (tran.source cfg))) } := by
  simp only [localCopy, Option.bind_eq_bind, Option.bind_eq_some_iff] at h
  obtain ⟨dst, hdst, src, hsrc, h⟩ := h
  obtain rfl := cfg.getBufferPtr_eq_some hdst
  obtain rfl := cfg.getBufferPtr_eq_some hsrc
  obtain ⟨algo, i, halgo, hstep, rfl⟩ := interpStep_some h
  exact ⟨algo, i, halgo, hstep, rfl⟩

theorem Program.type_cases (hprog : Program cfg nRanks root algos counts)
    (htran : u.transfer algos = some tran) :
    tran.type = .send ∨ (∃ kind : RecvOp, tran.type = kind.type) ∨ tran.type = .localCopy := by
  obtain ⟨algo, halgo, hbid, -, hget⟩ := Op.transfer_eq_some.mp htran
  have hplain := hprog.plain _ _ halgo u.bid hbid
  obtain ⟨ctx, hparsed⟩ := (hprog.accepted _ _ halgo).parsed u.bid hbid
  obtain ⟨seg, hseg, hfolds⟩ := exists_of_getElem? (hparsed.folds hplain) hget
  obtain ⟨x, hlast, hcarries⟩ := hfolds.carries
  obtain ⟨kind, hkind, htype, -, -⟩ := hcarries.kind
  have hx : x ∈ xmlSteps root u.gpu u.bid := by
    obtain ⟨rest, hrest⟩ := segments_flatten (xmlSteps root u.gpu u.bid)
    rw [hrest]
    apply List.mem_append_left
    exact List.mem_flatten.mpr ⟨seg, List.mem_of_getElem? hseg, List.mem_of_getLast? hlast⟩
  have hname := hplain.implemented x hx
  simp only [List.mem_cons, List.not_mem_nil, or_false] at hname
  rcases hname with hname | hname | hname | hname | hname <;> rw [hname] at hkind <;> cases hkind
  · exact Or.inl (Option.some_inj.mp htype).symm
  · exact Or.inr (Or.inl ⟨.recv, (Option.some_inj.mp htype).symm⟩)
  · exact Or.inr (Or.inl ⟨.recvReduceCopy, (Option.some_inj.mp htype).symm⟩)
  · exact Or.inr (Or.inr (Option.some_inj.mp htype).symm)
  · cases htype

/-! ### Bytes for a running receive -/

theorem Simulates.receive (h : Simulates cfg root algos counts start s order)
    (hprog : Program cfg nRanks root algos counts) (hu : s.Runs u)
    (htran : u.transfer algos = some tran) (hkind : tran.type = kind.type)
    (hon : u.on algos .receiving c = true) (hgpu : u.gpu = c.receiver)
    {taken data unsent : List UInt8} {r : RecvResult} (hqueued : Queued cfg algos s c unsent)
    (htaken : taken.length = bytesBefore cfg counts c (order.countP (Op.on algos .receiving c)))
    (hstream : (settled cfg algos start order).stream c (order.countP (Op.on algos .sending c)) =
      taken ++ (data ++ ((t.sending c).wire.flatten ++ unsent)))
    (hresult : (data.length < cfg.bytes tran.count ∧ r.completed = none ∧
        r.peer = ⟨[tran.pending cfg u.bid u.sid kind data], []⟩ ∧
        Placed cfg tran kind data (s.memory c.receiver) r.memory) ∨
      (cfg.bytes tran.count ≤ data.length ∧ r.completed = some (u.bid, u.sid) ∧
        r.peer = ⟨[], data.drop (cfg.bytes tran.count)⟩ ∧
        Landed cfg tran kind (data.take (cfg.bytes tran.count)) (s.memory c.receiver) r.memory))
    (hinterp : t.interp = s.interp) (hmemory : t.memory = s.memory)
    (hreceiving : t.receiving = s.receiving)
    (hqueue : (t.sending c).queue = (s.sending c).queue)
    (hsending : ∀ c', c' ≠ c → t.sending c' = s.sending c')
    (hstep : t.received algos c r = some s') :
    ∃ order', Simulates cfg root algos counts start s' order' := by
  rcases hresult with ⟨hlt, hnone, hpeer, hplaced⟩ | ⟨hle, hsome, hpeer, hlanded⟩
  · rcases Collective.received_cases hstep with ⟨-, rfl⟩ | ⟨bid, sid, algo, i, hdone, -⟩
    · refine ⟨order, ?_⟩
      refine h.place hprog hu htran hkind hon hgpu hqueued htaken hstream hlt hplaced hinterp ?_ ?_ hqueue
        hsending
      · rw [hmemory]
      · rw [hreceiving, hpeer]
    · rw [hnone] at hdone
      cases hdone
  · rcases Collective.received_cases hstep with ⟨hdone, -⟩ | ⟨bid, sid, algo, i, hdone, halgo, hi, rfl⟩
    · rw [hsome] at hdone
      cases hdone
    · rw [hsome] at hdone
      cases hdone
      rw [hinterp, ← hgpu] at hi
      have hsplit : (settled cfg algos start order).stream c
          (order.countP (Op.on algos .sending c)) = taken ++ (data.take (cfg.bytes tran.count) ++
            (data.drop (cfg.bytes tran.count) ++ ((t.sending c).wire.flatten ++ unsent))) := by
        rw [hstream, ← List.append_assoc (data.take _), List.take_append_drop]
      refine ⟨order ++ [u], ?_⟩
      refine h.land hprog hu htran hkind hon hgpu hqueued htaken hsplit (List.length_take_of_le hle)
        hlanded (by rw [hgpu]; exact halgo) hi ?_ ?_ ?_ hqueue hsending
      · rw [hinterp, hgpu]
      · rw [hmemory]
      · rw [hreceiving, hpeer]

theorem Simulates.recv (h : Simulates cfg root algos counts start s order)
    (hprog : Program cfg nRanks root algos counts) (hu : s.Runs u)
    (htran : u.transfer algos = some tran) (hkind : tran.type = kind.type)
    (hpeer : ∀ c, u.on algos .receiving c = true → (s.receiving c).pendingRecvQueue = [])
    (hstep : s.recv cfg algos u.gpu u.bid u.sid kind (u.tb algos) tran = some s') :
    ∃ order', Simulates cfg root algos counts start s' order' := by
  rw [Collective.recv] at hstep
  split at hstep
  · cases hstep
    exact ⟨order, h⟩
  · rename_i hneg
    simp only [Option.bind_eq_bind, Option.bind_eq_some_iff] at hstep
    obtain ⟨r, hclaim, hstep⟩ := hstep
    have hslot : u.slot algos .receiving tran = some ⟨Collective.recvConn u.gpu (u.tb algos),
        Side.receiving.index (u.tb algos) u.sid⟩ := by
      apply Op.slot_eq_some.mpr
      refine ⟨⟨?_, Int.not_lt.mp hneg⟩, rfl⟩
      rw [hkind]
      exact kind.has_receiving
    have hon : u.on algos .receiving (Collective.recvConn u.gpu (u.tb algos)) = true :=
      Op.on_eq_true.mpr ⟨tran, htran, _, hslot, rfl⟩
    obtain ⟨taken, held, unsent, hqueued, hheld, htaken, hstream⟩ :=
      h.linked (Collective.recvConn u.gpu (u.tb algos))
    cases hheld with
    | unclaimed hreceiving =>
        rw [hreceiving] at hclaim
        exact h.receive hprog hu htran hkind hon rfl hqueued htaken hstream
          (claimOrRegister_cases hclaim) rfl rfl rfl rfl (fun _ _ => rfl) hstep
    | pending hreceiving hgpu hruns htran' hon' hkind' hlt hplaced =>
        have hnil := hpeer _ hon
        rw [hreceiving] at hnil
        cases hnil

/-! ### The moves -/

theorem Simulates.control (h : Simulates cfg root algos counts start s order)
    (hprog : Program cfg nRanks root algos counts) {e : Event} (hrun : ∀ bid sid, e ≠ .runStep bid sid)
    (hstep : s.interpStep algos gpu (.fire e) = some s') :
    Simulates cfg root algos counts start s' order := by
  obtain ⟨algo, i, halgo, hi, rfl⟩ := Collective.interpStep_some hstep
  have hcontrol := hi.control (h.tracked.reached _ _ halgo).accounted hrun
  refine h.idle (h.tracked.control hprog halgo hi hrun) rfl rfl rfl ?_
  intro op hop
  apply hop.update rfl
  intro _ hmem
  rw [hcontrol.running]
  exact hmem

/-- `RunStep` settles a send or a local copy, and a receive whose bytes are there. -/
theorem Simulates.runStep (h : Simulates cfg root algos counts start s order)
    (hprog : Program cfg nRanks root algos counts)
    (hstep : s.fire cfg algos gpu (.runStep bid sid) = some s') :
    ∃ order', Simulates cfg root algos counts start s' order' := by
  simp only [Collective.fire, Option.bind_eq_bind, Option.bind_eq_some_iff] at hstep
  obtain ⟨s₁, hinterp, algo, halgo, tran, hget, hstep⟩ := hstep
  obtain ⟨algo', i, halgo', hi, rfl⟩ := Collective.interpStep_some hinterp
  obtain rfl := Option.some_inj.mp (halgo.symm.trans halgo')
  have hreached := h.tracked.reached _ _ halgo
  have hmem : .runStep bid sid ∈ (s.interp gpu).pending := by
    cases hi with
    | start hmem htran htype => exact hmem
    | ignore hmem htran htype => exact hmem
  have htb : (⟨gpu, bid, sid⟩ : Op).tb algos = algo.mscclTBs bid := Op.tb_eq halgo
  have htran : (⟨gpu, bid, sid⟩ : Op).transfer algos = some tran :=
    Op.transfer_eq_some.mpr ⟨algo, halgo, hreached.inRange.pending _ hmem, htb, hget⟩
  have htypes := hprog.type_cases htran
  have hrunning : i.running = (s.interp gpu).running ++ [(bid, sid)] := by
    apply mem_running_start hi hget
    rcases htypes with htype | ⟨kind, htype⟩ | htype
    · simp [htype]
    · cases kind <;> simp [htype, RecvOp.type]
    · simp [htype]
  rw [← htb] at hstep
  by_cases hsend : tran.type = .send
  · rw [Collective.startTransfer, hsend] at hstep
    obtain ⟨hpeer, captured, hcaptured, rfl⟩ := Collective.send_some hstep
    refine ⟨order ++ [⟨gpu, bid, sid⟩], ?_⟩
    exact h.send hprog htran hsend hpeer halgo hi hrunning rfl rfl rfl rfl hcaptured rfl
  · -- the transfer runs, and has done nothing yet
    have hnosend : (algo.mscclTBs bid).isSend sid = false := by
      simpa [hsend] using Op.isSend_eq htran halgo
    have hrunsOld : ∀ op, s.Runs op →
        Collective.Runs { s with interp := Function.update s.interp gpu i } op := by
      intro op hop
      apply hop.update rfl
      intro _ hrun
      rw [hrunning]
      exact List.mem_append_left _ hrun
    have hs₁ : Simulates cfg root algos counts start
        { s with interp := Function.update s.interp gpu i } order :=
      h.idle (h.tracked.start hprog halgo hi hrunning hnosend) rfl rfl rfl hrunsOld
    have hu : Collective.Runs { s with interp := Function.update s.interp gpu i }
        ⟨gpu, bid, sid⟩ := by
      simp only [Collective.Runs, Interpreter.Runs, Function.update_self, hrunning]
      exact List.mem_append_right _ List.mem_cons_self
    have hpeer : ∀ c, (⟨gpu, bid, sid⟩ : Op).on algos .receiving c = true →
        (s.receiving c).pendingRecvQueue = [] := by
      intro c hon
      obtain ⟨taken, held, unsent, -, hheld, -, -⟩ := h.linked c
      have hidle := (hreached.accounted.idle_of_runStep hmem).1
      rw [hheld.eq_unclaimed fun op hop => Tracked.not_runs_of_idle hprog.paired hon hidle hop]
    rcases htypes with htype | ⟨kind, htype⟩ | htype
    · exact absurd htype hsend
    · apply hs₁.recv hprog hu htran htype hpeer
      rw [Collective.startTransfer, htype] at hstep
      cases kind <;> exact hstep
    · rw [Collective.startTransfer, htype] at hstep
      obtain ⟨algo', i', halgo', hi', rfl⟩ := Collective.localCopy_some hstep
      refine ⟨order ++ [⟨gpu, bid, sid⟩], ?_⟩
      exact hs₁.copy hprog hu htran htype halgo' hi' rfl rfl rfl rfl

theorem Simulates.fire (h : Simulates cfg root algos counts start s order)
    (hprog : Program cfg nRanks root algos counts) {e : Event}
    (hstep : s.fire cfg algos gpu e = some s') :
    ∃ order', Simulates cfg root algos counts start s' order' := by
  cases e with
  | runStep bid sid => exact h.runStep hprog hstep
  | tryScheduleNextStep bid =>
      obtain ⟨s₁, hinterp, hs⟩ := Option.bind_eq_some_iff.mp hstep
      cases hs
      exact ⟨order, h.control hprog (fun _ _ heq => by cases heq) hinterp⟩
  | stepCompletion bid sid =>
      obtain ⟨s₁, hinterp, hs⟩ := Option.bind_eq_some_iff.mp hstep
      cases hs
      exact ⟨order, h.control hprog (fun _ _ heq => by cases heq) hinterp⟩

theorem Simulates.emit (h : Simulates cfg root algos counts start s order) {n : Nat}
    (hstep : s.emit c n = some s') : Simulates cfg root algos counts start s' order := by
  obtain ⟨msg, rest, payload, hhead, hle, hpayload, rfl⟩ := Collective.emit_some hstep
  obtain ⟨taken, held, unsent, hqueued, hheld, htaken, hstream⟩ := h.linked c
  cases hqueued with
  | idle hqueue =>
      rw [hqueue] at hhead
      cases hhead
  | @busy msg op tran hqueue hop hruns htran hon hsource hemitted hcaptured =>
      rw [hqueue] at hhead
      cases hhead
      refine h.within h.tracked (P := fun _ => False) ⟨fun _ _ hrun => hrun, fun _ _ _ _ _ _ _ _ => rfl⟩
        (fun gpu buf x hx => ⟨hx, rfl⟩) ?_
      intro c'
      by_cases hc : c' = c
      · subst hc
        right
        refine ⟨taken, held, (msg.captured.getD ((s.memory c'.sender).read msg.source)).drop
          (msg.emitted + n), ?_, ?_, htaken, ?_⟩
        · apply @Queued.busy _ _ _ _ { msg with emitted := msg.emitted + n } op tran
          · simp only [Function.update_self]
          · exact hop
          · exact hruns
          · exact htran
          · exact hon
          · exact hsource
          · exact hle
          · exact hcaptured
        · cases hheld with
          | unclaimed hpeer => exact .unclaimed hpeer
          | pending hpeer hgpu hruns htran hon hkind hlt hplaced =>
              exact .pending hpeer hgpu hruns htran hon hkind hlt hplaced
        · simp only [Function.update_self, List.flatten_append, List.flatten_singleton]
          rw [hstream, List.append_assoc, hpayload]
      · left
        exact ⟨fun _ hfalse => hfalse.elim, Function.update_of_ne hc _ _, rfl⟩

theorem Simulates.sent (h : Simulates cfg root algos counts start s order)
    (hprog : Program cfg nRanks root algos counts) (hstep : s.sent algos c = some s') :
    Simulates cfg root algos counts start s' order := by
  obtain ⟨msg, rest, algo, i, hhead, hall, halgo, hi, hs'⟩ := Collective.sent_some hstep
  have hinterp : s'.interp = Function.update s.interp c.sender i := by rw [hs']
  have hmemory : s'.memory = s.memory := by rw [hs']
  have hreceiving : s'.receiving = s.receiving := by rw [hs']
  have hsending : s'.sending = Function.update s.sending c { s.sending c with queue := rest } := by
    rw [hs']
  obtain ⟨taken, held, unsent, hqueued, hheld, htaken, hstream⟩ := h.linked c
  cases hqueued with
  | idle hqueue =>
      rw [hqueue] at hhead
      cases hhead
  | @busy msg u tran hqueue hu hruns htran hon hsource hemitted hcaptured =>
      rw [hqueue] at hhead
      cases hhead
      have hsend : tran.type = .send := Side.has_sending (Op.has_of_on htran hon)
      have hgpu : c.sender = u.gpu := by rw [hu]
      have hi' : Step algo (s.interp u.gpu) (.finish u.bid u.sid) i := by rwa [hu]
      rw [hgpu] at halgo hinterp
      have hissend : (algo.mscclTBs u.bid).isSend u.sid = true := by
        simp [u.isSend_eq htran halgo, hsend]
      have hoff (c' : ConnId) : u.on algos .receiving c' = false := Op.not_on_receiving htran hsend c'
      have hruns' := Collective.runs_finish hi' hinterp
      have hkeeps : Keeps cfg algos (fun op => op = u) s s' :=
        ⟨hruns', fun op tran buf x _ _ _ _ => by rw [hmemory]⟩
      have htracked : Tracked algos s'.interp order := by
        rw [hinterp]
        exact h.tracked.finish_send hprog halgo hi' hissend
      apply h.within htracked hkeeps
      · intro gpu buf x hx
        refine ⟨fun hfill => hx (hfill.mono ?_), by rw [hmemory]⟩
        intro op tran' htran' htype hop
        apply hruns' op _ hop
        rintro rfl
        obtain rfl := Option.some_inj.mp (htran.symm.trans htran')
        rw [hsend] at htype
        cases htype
      · intro c'
        by_cases hc : c' = c
        · subst hc
          right
          refine ⟨taken, held, [], .idle ?_, ?_, htaken, ?_⟩
          · simp only [hsending, Function.update_self]
          · apply hheld.keep hkeeps _ (by rw [hreceiving])
            rintro op rfl
            exact hoff c'
          · -- all bytes of the message have left
            have hnil : (msg.captured.getD ((s.memory c'.sender).read msg.source)).drop msg.emitted =
                [] := by
              rw [hall]
              apply List.drop_of_length_le
              cases hcap : msg.captured with
              | none => exact Nat.le_of_eq (Memory.read_length _ _)
              | some data => exact Nat.le_of_eq (hcaptured data hcap)
            simp only [hsending, Function.update_self]
            rw [hstream, hnil]
        · left
          refine ⟨?_, by rw [hsending, Function.update_of_ne hc], by rw [hreceiving]⟩
          rintro op rfl side
          cases side with
          | sending => exact Op.not_on_of_ne hon hc
          | receiving => exact hoff c'

theorem Simulates.unclaimed (h : Simulates cfg root algos counts start s order)
    {taken held payload unsent : List UInt8} {wire : List (List UInt8)}
    (hqueued : Queued cfg algos s c unsent)
    (htaken : taken.length = bytesBefore cfg counts c (order.countP (Op.on algos .receiving c)))
    (hinterp : s'.interp = s.interp) (hmemory : s'.memory = s.memory)
    (hreceiving : s'.receiving = Function.update s.receiving c ⟨[], held ++ payload⟩)
    (hsending : s'.sending = Function.update s.sending c { s.sending c with wire := wire })
    (hstream : (settled cfg algos start order).stream c (order.countP (Op.on algos .sending c)) =
      taken ++ (held ++ ((payload ++ wire.flatten) ++ unsent))) :
    Simulates cfg root algos counts start s' order := by
  have hruns (op : Op) : s'.Runs op ↔ s.Runs op := by rw [Collective.Runs, Collective.Runs, hinterp]
  have hkeeps : Keeps cfg algos (fun _ => False) s s' :=
    ⟨fun op _ => (hruns op).mpr, fun _ _ _ _ _ _ _ _ => by rw [hmemory]⟩
  apply h.within (by rw [hinterp]; exact h.tracked) hkeeps
  · intro gpu buf x hx
    exact ⟨fun hfill => hx (hfill.mono fun op _ _ _ => (hruns op).mpr), by rw [hmemory]⟩
  · intro c'
    by_cases hc : c' = c
    · subst hc
      right
      refine ⟨taken, held ++ payload, unsent, ?_, .unclaimed ?_, htaken, ?_⟩
      · apply hqueued.keep hkeeps (fun _ hfalse => hfalse.elim)
        simp only [hsending, Function.update_self]
      · simp only [hreceiving, Function.update_self]
      · simp only [hsending, Function.update_self]
        rw [hstream]
        simp
    · left
      refine ⟨fun _ hfalse => hfalse.elim, ?_, ?_⟩
      · rw [hsending, Function.update_of_ne hc]
      · rw [hreceiving, Function.update_of_ne hc]

theorem Simulates.arrive (h : Simulates cfg root algos counts start s order)
    (hprog : Program cfg nRanks root algos counts) (hstep : s.arrive cfg algos c = some s') :
    ∃ order', Simulates cfg root algos counts start s' order' := by
  obtain ⟨payload, wire, r, hwire, harrived, hstep⟩ := Collective.arrive_some hstep
  obtain ⟨taken, held, unsent, hqueued, hheld, htaken, hstream⟩ := h.linked c
  rw [hwire, List.flatten_cons] at hstream
  cases hheld with
  | unclaimed hpeer =>
      rw [hpeer] at harrived
      obtain ⟨hmem, hpeer', hnone⟩ := onBytesArrived_unclaimed harrived
      rcases Collective.received_cases hstep with ⟨-, hs'⟩ | ⟨bid, sid, algo, i, hsome, -⟩
      · exact ⟨order, h.unclaimed hqueued htaken (by rw [hs']) (by rw [hs', hmem,
          Function.update_eq_self]) (by rw [hs', hpeer']) (by rw [hs']) hstream⟩
      · rw [hnone] at hsome
        cases hsome
  | @pending u tran kind data hpeer hgpu hruns htran hon hkind hlt hplaced =>
      rw [hpeer] at harrived
      have hresult : ((held ++ payload).length < cfg.bytes tran.count ∧ r.completed = none ∧
            r.peer = ⟨[tran.pending cfg u.bid u.sid kind (held ++ payload)], []⟩ ∧
            Placed cfg tran kind (held ++ payload) (s.memory c.receiver) r.memory) ∨
          (cfg.bytes tran.count ≤ (held ++ payload).length ∧ r.completed = some (u.bid, u.sid) ∧
            r.peer = ⟨[], (held ++ payload).drop (cfg.bytes tran.count)⟩ ∧
            Landed cfg tran kind ((held ++ payload).take (cfg.bytes tran.count))
              (s.memory c.receiver) r.memory) := by
        rcases onBytesArrived_pending hplaced harrived with
          ⟨hlt', hdone, hpeer', hplaced'⟩ | ⟨hlen, hdone, hpeer', hlanded⟩
        · left
          rw [List.length_append]
          exact ⟨hlt', hdone, hpeer', hplaced'⟩
        · right
          have hlen' : (held ++ payload).length = cfg.bytes tran.count := by
            rw [List.length_append, hlen]
          have hle := Nat.le_of_eq hlen'
          rw [List.drop_of_length_le hle, List.take_of_length_le hle]
          exact ⟨Nat.le_of_eq hlen'.symm, hdone, hpeer', hlanded⟩
      refine h.receive hprog hruns htran hkind hon hgpu hqueued htaken
        (t := { s with sending := Function.update s.sending c ⟨(s.sending c).queue, wire⟩ })
        ?_ hresult rfl rfl rfl ?_ ?_ hstep
      · simp only [Function.update_self]
        rw [hstream]
        simp
      · simp only [Function.update_self]
      · intro c' hc
        exact Function.update_of_ne hc _ _

/-- Every move of a collective keeps a history. -/
theorem Simulates.step (h : Simulates cfg root algos counts start s order)
    (hprog : Program cfg nRanks root algos counts) {move : Move}
    (hstep : s.step cfg algos move = some s') :
    ∃ order', Simulates cfg root algos counts start s' order' := by
  cases move with
  | fire gpu e => exact h.fire hprog hstep
  | emit c n => exact ⟨order, h.emit hstep⟩
  | sent c => exact ⟨order, h.sent hprog hstep⟩
  | arrive c => exact h.arrive hprog hstep

end

end CollectiveSim.Msccl
