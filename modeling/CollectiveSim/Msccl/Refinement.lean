import CollectiveSim.Msccl.Simulation

/-!
# What one move does to the history

A move settles nothing, or the one transfer that it starts as a send or finishes otherwise.
-/

namespace CollectiveSim.Msccl

open Framework Interpreter

section

variable {cfg : AppConfig} {nRanks : Nat} {root : XmlNode} {algos : Nat → Option MscclAlgorithm}
  {counts : ConnId → List Nat} {start : Nat → Memory} {algo : MscclAlgorithm}
  {s s' : Collective} {order : List Op} {u : Op} {tran : MscclTransfer} {c : ConnId}
  {kind : RecvOp}

/-! ### Interpreters -/

theorem Collective.Runs.update {op : Op} {gpu : Nat} {i : Interpreter} (h : s.Runs op)
    (hinterp : s'.interp = Function.update s.interp gpu i)
    (hkeep : op.gpu = gpu → (op.bid, op.sid) ∈ (s.interp gpu).running → (op.bid, op.sid) ∈ i.running) :
    s'.Runs op := by
  rw [Runs, hinterp]
  by_cases hgpu : op.gpu = gpu
  · rw [hgpu, Function.update_self]
    apply hkeep hgpu
    rw [← hgpu]
    exact h
  · rw [Function.update_of_ne hgpu]
    exact h

theorem Collective.Filling.mono {gpu : Nat} {buf : BufferType} {x : Nat}
    (h : s.Filling cfg algos gpu buf x)
    (hruns : ∀ op tran, op.transfer algos = some tran → tran.type = .recv → s.Runs op → s'.Runs op) :
    s'.Filling cfg algos gpu buf x := by
  obtain ⟨op, tran, hgpu, hop, htran, htype, hwrites⟩ := h
  exact ⟨op, tran, hgpu, hruns op tran htran htype hop, htran, htype, hwrites⟩

theorem Simulates.idle (h : Simulates cfg root algos counts start s order)
    (htracked : Tracked algos s'.interp order) (hmemory : s'.memory = s.memory)
    (hsending : s'.sending = s.sending) (hreceiving : s'.receiving = s.receiving)
    (hruns : ∀ op, s.Runs op → s'.Runs op) : Simulates cfg root algos counts start s' order := by
  have hkeeps : Keeps cfg algos (fun _ => False) s s' :=
    ⟨fun op _ => hruns op, fun op tran buf x _ _ _ _ => by rw [hmemory]⟩
  apply h.within htracked hkeeps
  · intro gpu buf x hx
    constructor
    · exact fun hfill => hx (hfill.mono fun op _ _ _ => hruns op)
    · rw [hmemory]
  · intro c
    left
    exact ⟨fun _ hfalse => hfalse.elim, by rw [hsending], by rw [hreceiving]⟩

theorem Op.isSend_eq (htran : u.transfer algos = some tran) (halgo : algos u.gpu = some algo) :
    (algo.mscclTBs u.bid).isSend u.sid = decide (tran.type = .send) := by
  obtain ⟨algo', halgo', -, -, hget⟩ := Op.transfer_eq_some.mp htran
  obtain rfl := Option.some_inj.mp (halgo.symm.trans halgo')
  rw [MscclThreadBlock.isSend, hget]
  rfl

theorem Tracked.not_runs_of_idle (hpaired : Paired algos counts) {side : Side}
    (hu : u.on algos side c = true) (hnone : ∀ j, (u.bid, j) ∉ (s.interp u.gpu).running) {op : Op}
    (hon : op.on algos side c = true) : ¬ s.Runs op := by
  intro hop
  obtain ⟨tran, htran, slot, hslot, rfl⟩ := Op.on_eq_true.mp hu
  obtain ⟨tran', htran', slot', hslot', hconn⟩ := Op.on_eq_true.mp hon
  obtain ⟨algo, halgo, -, -, -⟩ := Op.transfer_eq_some.mp htran
  obtain ⟨algo', halgo', -, -, -⟩ := Op.transfer_eq_some.mp htran'
  have huses := u.uses halgo htran hslot
  have huses' := op.uses halgo' htran' hslot'
  rw [hconn] at huses'
  obtain ⟨hgpu, hbid⟩ := hpaired.unique side _ _ _ _ _ _ _ huses huses'
  apply hnone op.sid
  rw [hgpu, hbid]
  exact hop

theorem Queued.eq_nil {bytes : List UInt8} (h : Queued cfg algos s c bytes)
    (hnone : ∀ op : Op, op.on algos .sending c = true → ¬ s.Runs op) :
    (s.sending c).queue = [] ∧ bytes = [] := by
  cases h with
  | idle hqueue => exact ⟨hqueue, rfl⟩
  | busy hqueue hop hruns htran hon hsource hemitted hcaptured => exact absurd hruns (hnone _ hon)

theorem Held.eq_unclaimed {bytes : List UInt8} (h : Held cfg algos s c bytes)
    (hnone : ∀ op : Op, op.on algos .receiving c = true → ¬ s.Runs op) :
    s.receiving c = ⟨[], bytes⟩ := by
  cases h with
  | unclaimed hpeer => exact hpeer
  | pending hpeer hgpu hruns htran hon hkind hlt hplaced => exact absurd hruns (hnone _ hon)

/-! ### Receives -/

theorem SeqState.exec_receive (T : SeqState) {slot : Slot} {data : List UInt8}
    (htran : u.transfer algos = some tran) (hkind : tran.type = kind.type)
    (hslot : u.slot algos .receiving tran = some slot) (hlen : data.length = cfg.bytes tran.count)
    (hmessage : 0 < cfg.bytes tran.count → data = T.message slot) :
    (T.exec cfg algos u).memory u.gpu =
      (tran.posted u.bid u.sid kind).receive cfg data (T.memory u.gpu) := by
  have hexec : T.exec cfg algos u = T.receive cfg algos u tran kind := by
    rw [exec, htran]
    simp only
    rw [transfer, hkind]
    cases kind <;> rfl
  rw [hexec, receive, Op.takes]
  by_cases hpos : 0 < cfg.bytes tran.count
  · rw [if_pos hpos, hslot]
    simp only [setMemory_self]
    rw [← hmessage hpos, ← hlen, List.take_length]
  · rw [if_neg hpos]
    have hnil : data = [] := List.length_eq_zero_iff.mp (by omega)
    have hland := (tran.posted u.bid u.sid kind).landing_length cfg [] (T.memory u.gpu)
    subst hnil
    rw [PostedRecv.receive_eq, List.length_eq_zero_iff.mp hland, Memory.write, writeRange_nil,
      Function.update_eq_self]

theorem Collective.frame_of_target {m' : Memory}
    (hwrites : ∀ {buf x}, tran.Writes cfg buf x ↔ (tran.target cfg).Has buf x)
    (hm' : ∀ buf x, ¬ (tran.target cfg).Has buf x → m' buf x = s.memory u.gpu buf x)
    (hmemory : s'.memory = Function.update s.memory u.gpu m') (gpu : Nat) (buf : BufferType) (x : Nat)
    (hx : ¬ (gpu = u.gpu ∧ tran.Writes cfg buf x)) : s'.memory gpu buf x = s.memory gpu buf x := by
  rw [hmemory]
  by_cases hgpu : gpu = u.gpu
  · subst hgpu
    rw [Function.update_self]
    apply hm'
    exact fun hhas => hx ⟨rfl, hwrites.mpr hhas⟩
  · rw [Function.update_of_ne hgpu]

/-- The bytes that a finished transfer has written are those that it writes in the history. -/
theorem Simulates.memory_settle (h : Simulates cfg root algos counts start s order)
    (htran : u.transfer algos = some tran) (hruns : ∀ op, op ≠ u → s.Runs op → s'.Runs op)
    (hframe : ∀ gpu buf x, ¬ (gpu = u.gpu ∧ tran.Writes cfg buf x) →
      s'.memory gpu buf x = s.memory gpu buf x)
    (hwritten : ∀ buf x, tran.Writes cfg buf x → s'.memory u.gpu buf x =
      ((settled cfg algos start order).exec cfg algos u).memory u.gpu buf x)
    (gpu : Nat) (buf : BufferType) (x : Nat) (hx : ¬ s'.Filling cfg algos gpu buf x) :
    s'.memory gpu buf x = (settled cfg algos start (order ++ [u])).memory gpu buf x := by
  rw [settled_append]
  by_cases hwrites : gpu = u.gpu ∧ tran.Writes cfg buf x
  · obtain ⟨rfl, hwrites⟩ := hwrites
    exact hwritten buf x hwrites
  · have hold : s.memory gpu buf x = (settled cfg algos start order).memory gpu buf x := by
      apply h.memory
      rintro ⟨op, tran', hgpu, hop, htran', htype, hw⟩
      apply hx
      refine ⟨op, tran', hgpu, hruns op ?_ hop, htran', htype, hw⟩
      rintro rfl
      obtain rfl := Option.some_inj.mp (htran.symm.trans htran')
      exact hwrites ⟨hgpu.symm, hw⟩
    rw [hframe gpu buf x hwrites, hold, SeqState.exec, htran]
    exact (SeqState.transfer_memory_of_not _ hwrites).symm

theorem Simulates.place (h : Simulates cfg root algos counts start s order)
    (hprog : Program cfg nRanks root algos counts) (hu : s.Runs u)
    (htran : u.transfer algos = some tran) (hkind : tran.type = kind.type)
    (hon : u.on algos .receiving c = true) (hgpu : u.gpu = c.receiver)
    {taken data unsent : List UInt8} {m' : Memory} (hqueued : Queued cfg algos s c unsent)
    (htaken : taken.length = bytesBefore cfg counts c (order.countP (Op.on algos .receiving c)))
    (hstream : (settled cfg algos start order).stream c (order.countP (Op.on algos .sending c)) =
      taken ++ (data ++ ((s'.sending c).wire.flatten ++ unsent)))
    (hlt : data.length < cfg.bytes tran.count)
    (hplaced : Placed cfg tran kind data (s.memory c.receiver) m')
    (hinterp : s'.interp = s.interp) (hmemory : s'.memory = Function.update s.memory c.receiver m')
    (hreceiving : s'.receiving =
      Function.update s.receiving c ⟨[tran.pending cfg u.bid u.sid kind data], []⟩)
    (hqueue : (s'.sending c).queue = (s.sending c).queue)
    (hsending : ∀ c', c' ≠ c → s'.sending c' = s.sending c') :
    Simulates cfg root algos counts start s' order := by
  have hruns (op : Op) : s'.Runs op ↔ s.Runs op := by rw [Collective.Runs, Collective.Runs, hinterp]
  rw [← hgpu] at hmemory hplaced
  have hframe := Collective.frame_of_target (tran.writes_target hkind) hplaced.frame hmemory
  have hkeeps := h.tracked.keeps hprog hu htran (fun op _ => (hruns op).mpr) hframe
  have htype : tran.type ≠ .send := by
    rw [hkind]
    exact kind.type_ne_send
  apply h.within (by rw [hinterp]; exact h.tracked) hkeeps
  · intro gpu buf x hx
    have hx' : ¬ s.Filling cfg algos gpu buf x :=
      fun hfill => hx (hfill.mono fun op _ _ _ => (hruns op).mpr)
    refine ⟨hx', ?_⟩
    cases kind with
    | recv =>
        apply hframe
        rintro ⟨rfl, hwrites⟩
        exact hx' ⟨u, tran, rfl, hu, htran, hkind, hwrites⟩
    | recvReduceCopy => rw [hmemory, hplaced.same rfl, Function.update_eq_self]
  · intro c'
    by_cases hc : c' = c
    · subst hc
      right
      refine ⟨taken, data, unsent, ?_, ?_, htaken, hstream⟩
      · apply hqueued.keep hkeeps _ hqueue
        rintro op rfl
        exact Op.not_on_sending htran htype c'
      · have hpeer : s'.receiving c' = ⟨[tran.pending cfg u.bid u.sid kind data], []⟩ := by
          rw [hreceiving, Function.update_self]
        apply Held.pending hpeer hgpu ((hruns u).mpr hu) htran hon hkind hlt
        intro hrecv
        rw [hmemory, ← hgpu, Function.update_self]
        exact hplaced.read hrecv
    · left
      refine ⟨?_, hsending c' hc, by rw [hreceiving, Function.update_of_ne hc]⟩
      rintro op rfl side
      cases side with
      | sending => exact Op.not_on_sending htran htype c'
      | receiving => exact Op.not_on_of_ne hon hc

theorem Collective.runs_finish {i : Interpreter} (hstep : Step algo (s.interp u.gpu) (.finish u.bid u.sid) i)
    (hinterp : s'.interp = Function.update s.interp u.gpu i) (op : Op) (hne : op ≠ u)
    (hop : s.Runs op) : s'.Runs op := by
  apply hop.update hinterp
  intro hgpu hmem
  cases hstep with
  | finish _ =>
      apply (List.mem_erase_of_ne _).mpr hmem
      intro heq
      obtain ⟨hbid, hsid⟩ := Prod.mk.injEq .. ▸ heq
      apply hne
      obtain ⟨gpu, bid, sid⟩ := op
      cases hgpu
      cases hbid
      cases hsid
      rfl

theorem Simulates.eq_message (h : Simulates cfg root algos counts start s order)
    (hprog : Program cfg nRanks root algos counts) (htran : u.transfer algos = some tran)
    {slot : Slot} (hslot : u.slot algos .receiving tran = some slot)
    {taken data rest : List UInt8}
    (htaken : taken.length = bytesBefore cfg counts slot.conn slot.index)
    (hlen : data.length = cfg.bytes tran.count)
    (hstream : (settled cfg algos start order).stream slot.conn
      (order.countP (Op.on algos .sending slot.conn)) = taken ++ (data ++ rest))
    (hpos : 0 < cfg.bytes tran.count) : data = (settled cfg algos start order).message slot := by
  have hsize : msgSize cfg counts slot.conn slot.index = cfg.bytes tran.count :=
    hprog.paired.msgSize_eq htran hslot
  rw [← hsize] at hpos hlen
  have hlt : slot.index < order.countP (Op.on algos .sending slot.conn) := by
    rw [← List.append_assoc] at hstream
    apply (h.sized slot.conn).lt_of_taken hstream _ (Nat.lt_succ_self slot.index) hpos
    rw [List.length_append, bytesBefore_succ, htaken, hlen]
  exact (h.sized slot.conn).eq_message hlt hstream htaken hlen

theorem Simulates.eq_landed (h : Simulates cfg root algos counts start s order)
    (hprog : Program cfg nRanks root algos counts) (hu : s.Runs u)
    (htran : u.transfer algos = some tran) (hkind : tran.type = kind.type) {data : List UInt8}
    {m' : Memory} (hlen : data.length = cfg.bytes tran.count)
    (hlanded : Landed cfg tran kind data (s.memory u.gpu) m') {buf : BufferType} {x : Nat}
    (hwrites : tran.Writes cfg buf x) :
    m' buf x = (tran.posted u.bid u.sid kind).receive cfg data
      ((settled cfg algos start order).memory u.gpu) buf x := by
  have hland' : Landed cfg tran kind data ((settled cfg algos start order).memory u.gpu) _ :=
    Landed.of_receive hlen
  apply Region.eq_of_read (r := tran.target cfg) _ ((tran.writes_target hkind).mp hwrites)
  rw [hlanded.read]
  refine Eq.trans ?_ hland'.read.symm
  apply PostedRecv.landing_congr
  intro hreduce
  apply Memory.read_congr
  intro buf' x' hx'
  apply h.eq_of_touches hprog hu htran
  · rw [hkind]
    have hkind' : kind = .recvReduceCopy := hreduce
    rw [hkind']
    simp [RecvOp.type]
  · right
    rw [tran.writes_target hkind]
    have hhi := hx'.2.2
    rw [hlen] at hhi
    exact ⟨hx'.1, hx'.2.1, hhi⟩

/-- A running receive gets all its bytes and is finished. -/
theorem Simulates.land (h : Simulates cfg root algos counts start s order)
    (hprog : Program cfg nRanks root algos counts) (hu : s.Runs u)
    (htran : u.transfer algos = some tran) (hkind : tran.type = kind.type)
    (hon : u.on algos .receiving c = true) (hgpu : u.gpu = c.receiver)
    {taken data held unsent : List UInt8} {m' : Memory} {i : Interpreter}
    (hqueued : Queued cfg algos s c unsent)
    (htaken : taken.length = bytesBefore cfg counts c (order.countP (Op.on algos .receiving c)))
    (hstream : (settled cfg algos start order).stream c (order.countP (Op.on algos .sending c)) =
      taken ++ (data ++ (held ++ ((s'.sending c).wire.flatten ++ unsent))))
    (hlen : data.length = cfg.bytes tran.count)
    (hlanded : Landed cfg tran kind data (s.memory c.receiver) m')
    (halgo : algos u.gpu = some algo)
    (hstep : Step algo (s.interp u.gpu) (.finish u.bid u.sid) i)
    (hinterp : s'.interp = Function.update s.interp u.gpu i)
    (hmemory : s'.memory = Function.update s.memory c.receiver m')
    (hreceiving : s'.receiving = Function.update s.receiving c ⟨[], held⟩)
    (hqueue : (s'.sending c).queue = (s.sending c).queue)
    (hsending : ∀ c', c' ≠ c → s'.sending c' = s.sending c') :
    Simulates cfg root algos counts start s' (order ++ [u]) := by
  have htype : tran.type ≠ .send := by
    rw [hkind]
    exact kind.type_ne_send
  have hsend : (algo.mscclTBs u.bid).isSend u.sid = false := by simp [u.isSend_eq htran halgo, htype]
  have hruns := Collective.runs_finish hstep hinterp
  have htracked : Tracked algos s'.interp (order ++ [u]) := by
    rw [hinterp]
    exact h.tracked.finish hprog halgo htran hstep hsend
  rw [← hgpu] at hmemory hlanded
  have hframe := Collective.frame_of_target (tran.writes_target hkind) hlanded.frame hmemory
  have hkeeps := h.tracked.keeps hprog hu htran hruns hframe
  -- the message that it takes
  obtain ⟨tran', htran', slot, hslot, rfl⟩ := Op.on_eq_true.mp hon
  obtain rfl := Option.some_inj.mp (htran.symm.trans htran')
  have hindex : order.countP (Op.on algos .receiving slot.conn) = slot.index := by
    apply h.tracked.index_of_next halgo htran hslot
    rw [(h.tracked.reached _ _ halgo).accounted.covered_of_running hu, if_neg (by rw [hsend]; decide)]
  have hsize : msgSize cfg counts slot.conn slot.index = cfg.bytes tran.count :=
    hprog.paired.msgSize_eq htran hslot
  have hexec := (settled cfg algos start order).exec_receive htran hkind hslot hlen
    (h.eq_message hprog htran hslot (hindex ▸ htaken) hlen hstream)
  apply h.settle hprog htran htracked hkeeps
  · apply h.memory_settle htran hruns hframe
    intro buf x hwrites
    rw [hexec, hmemory, Function.update_self]
    exact h.eq_landed hprog hu htran hkind hlen hlanded hwrites
  · intro c'
    by_cases hc : c' = slot.conn
    · subst hc
      right
      have hoff := Op.not_on_sending htran htype slot.conn
      have hmessages (k : Nat) :
          ((settled cfg algos start order).exec cfg algos u).message ⟨slot.conn, k⟩ =
            (settled cfg algos start order).message ⟨slot.conn, k⟩ :=
        SeqState.exec_message_of_not_on _ hoff k
      rw [countP_append_of_not_on hoff, settled_append]
      constructor
      · intro k hk
        rw [hmessages]
        exact h.sized slot.conn k hk
      · refine ⟨taken ++ data, held, unsent, ?_, ?_, ?_, ?_⟩
        · apply hqueued.keep hkeeps _ hqueue
          rintro op rfl
          exact hoff
        · apply Held.unclaimed
          rw [hreceiving, Function.update_self]
        · rw [countP_append_of_on hon, bytesBefore_succ, List.length_append, htaken, hlen, hindex,
            hsize]
        · rw [countP_append_of_not_on hoff, SeqState.stream_congr fun k _ => hmessages k, hstream,
            List.append_assoc]
    · left
      refine ⟨?_, hsending c' hc, by rw [hreceiving, Function.update_of_ne hc]⟩
      intro side
      cases side with
      | sending => exact Op.not_on_sending htran htype c'
      | receiving => exact Op.not_on_of_ne hon hc

/-! ### Copies and sends -/

theorem Simulates.copy (h : Simulates cfg root algos counts start s order)
    (hprog : Program cfg nRanks root algos counts) (hu : s.Runs u)
    (htran : u.transfer algos = some tran) (htype : tran.type = .localCopy)
    (halgo : algos u.gpu = some algo) {i : Interpreter}
    (hstep : Step algo (s.interp u.gpu) (.finish u.bid u.sid) i)
    (hinterp : s'.interp = Function.update s.interp u.gpu i)
    (hmemory : s'.memory = Function.update s.memory u.gpu ((s.memory u.gpu).write tran.dstbuffer
      (cfg.bufferOffset tran.dstoffset) ((s.memory u.gpu).read (tran.source cfg))))
    (hsending : s'.sending = s.sending) (hreceiving : s'.receiving = s.receiving) :
    Simulates cfg root algos counts start s' (order ++ [u]) := by
  have hnot : tran.type ≠ .send := by simp [htype]
  have hsend : (algo.mscclTBs u.bid).isSend u.sid = false := by simp [u.isSend_eq htran halgo, htype]
  have hruns := Collective.runs_finish hstep hinterp
  have htracked : Tracked algos s'.interp (order ++ [u]) := by
    rw [hinterp]
    exact h.tracked.finish hprog halgo htran hstep hsend
  have hsource : (s.memory u.gpu).read (tran.source cfg) =
      ((settled cfg algos start order).memory u.gpu).read (tran.source cfg) := by
    apply Memory.read_congr
    intro buf x hx
    apply h.eq_of_touches hprog hu htran (by simp [htype])
    left
    rw [MscclTransfer.Reads, htype]
    exact hx
  have hwrites {buf : BufferType} {x : Nat} :
      tran.Writes cfg buf x ↔ (tran.target cfg).Has buf x := by
    rw [MscclTransfer.Writes, htype]
  have hlen : ((s.memory u.gpu).read (tran.source cfg)).length ≤ (tran.target cfg).size := by
    rw [Memory.read_length]
    exact Nat.le_refl _
  have hframe := Collective.frame_of_target hwrites
    (fun _ _ hx => Memory.write_of_not_has (r := tran.target cfg) (s.memory u.gpu) hlen hx) hmemory
  have hexec : ((settled cfg algos start order).exec cfg algos u).memory u.gpu =
      ((settled cfg algos start order).memory u.gpu).write tran.dstbuffer
        (cfg.bufferOffset tran.dstoffset)
        (((settled cfg algos start order).memory u.gpu).read (tran.source cfg)) := by
    rw [SeqState.exec, htran]
    simp only
    rw [SeqState.transfer, htype]
    exact SeqState.setMemory_self _ _ _
  have hoff (side : Side) (c : ConnId) : u.on algos side c = false := by
    rw [Bool.eq_false_iff]
    intro hon
    have hhas := Op.has_of_on htran hon
    rw [htype] at hhas
    cases side <;> cases hhas
  apply h.settle hprog htran htracked (h.tracked.keeps hprog hu htran hruns hframe)
  · apply h.memory_settle htran hruns hframe
    intro buf x hx
    rw [hexec, hmemory, Function.update_self, ← hsource]
    apply Memory.write_cell
    exact h.eq_of_touches hprog hu htran (by simp [htype]) (Or.inr hx)
  · intro c
    left
    exact ⟨fun side => hoff side c, by rw [hsending], by rw [hreceiving]⟩

theorem SeqState.exec_send (T : SeqState) {slot : Slot} (htran : u.transfer algos = some tran)
    (hslot : u.slot algos .sending tran = some slot) (slot' : Slot) :
    (T.exec cfg algos u).message slot' =
      if slot' = slot then (T.memory u.gpu).read (tran.source cfg) else T.message slot' := by
  rw [exec, htran]
  simp only
  rw [transfer_message, hslot]
  simp only [Option.some_inj, eq_comm]

theorem MscclTransfer.not_writes_of_send (htype : tran.type = .send) {buf : BufferType} {x : Nat} :
    ¬ tran.Writes cfg buf x := by
  rw [Writes, htype]
  exact id

/-- No receive is filling what a send that starts reads. -/
theorem Simulates.read_source (h : Simulates cfg root algos counts start s order)
    (hprog : Program cfg nRanks root algos counts) (htran : u.transfer algos = some tran)
    (htype : tran.type = .send) (htracked : Tracked algos s'.interp (order ++ [u]))
    (hruns : ∀ op, s.Runs op → s'.Runs op) (hu : s'.Runs u) :
    ((settled cfg algos start order).memory u.gpu).read (tran.source cfg) =
      (s.memory u.gpu).read (tran.source cfg) := by
  apply Memory.read_congr
  intro buf x hx
  symm
  apply h.memory
  rintro ⟨op, tran', hgpu, hop, htran', htype', hw⟩
  have hne : op ≠ u := by
    rintro rfl
    obtain rfl := Option.some_inj.mp (htran.symm.trans htran')
    exact MscclTransfer.not_writes_of_send htype hw
  exact htracked.disjoint hprog (hruns op hop) hu hgpu hne htran' htran hw
    (tran.touches_source htype hx)

theorem Queued.started (htran : u.transfer algos = some tran) (hon : u.on algos .sending c = true)
    (hgpu : c.sender = u.gpu) (hu : s.Runs u) {captured : Option (List UInt8)}
    (hqueue : (s.sending c).queue = [⟨u.bid, u.sid, tran.source cfg, 0, captured⟩])
    (hcaptured : ∀ data, captured = some data →
      data = (s.memory u.gpu).read (tran.source cfg)) :
    Queued cfg algos s c ((s.memory u.gpu).read (tran.source cfg)) := by
  have hbusy : Queued cfg algos s c
      ((captured.getD ((s.memory c.sender).read (tran.source cfg))).drop 0) := by
    apply @Queued.busy _ _ _ _ ⟨u.bid, u.sid, tran.source cfg, 0, captured⟩ u tran hqueue
    · rw [hgpu]
    · exact hu
    · exact htran
    · exact hon
    · rfl
    · exact Nat.zero_le _
    · intro data hdata
      rw [hcaptured data hdata, Memory.read_length]
  rw [List.drop_zero, hgpu] at hbusy
  cases hcap : captured with
  | none => rwa [hcap] at hbusy
  | some data =>
      rw [hcap, Option.getD_some, hcaptured data hcap] at hbusy
      exact hbusy

theorem Linked.started {T T' : SeqState} {data : List UInt8} (h : Linked cfg algos s counts T order c)
    (hsend : u.on algos .sending c = true) (hreceive : u.on algos .receiving c = false)
    (hnone : ∀ op : Op, op.on algos .sending c = true → ¬ s.Runs op)
    (hqueued : (s.sending c).queue = [] → Queued cfg algos s' c data)
    (hheld : ∀ held, Held cfg algos s c held → Held cfg algos s' c held)
    (hwire : (s'.sending c).wire = (s.sending c).wire)
    (hfront : ∀ k < order.countP (Op.on algos .sending c), T'.message ⟨c, k⟩ = T.message ⟨c, k⟩)
    (hlast : T'.message ⟨c, order.countP (Op.on algos .sending c)⟩ = data) :
    Linked cfg algos s' counts T' (order ++ [u]) c := by
  obtain ⟨taken, held, unsent, hunsent, hheldOld, htaken, hstream⟩ := h
  obtain ⟨hqueue, rfl⟩ := hunsent.eq_nil hnone
  refine ⟨taken, held, data, hqueued hqueue, hheld held hheldOld, ?_, ?_⟩
  · rw [countP_append_of_not_on hreceive]
    exact htaken
  · rw [countP_append_of_on hsend, SeqState.stream_succ, hlast, SeqState.stream_congr hfront, hstream,
      hwire]
    simp

/-- A send starts; it is settled with the bytes that it finds. -/
theorem Simulates.send (h : Simulates cfg root algos counts start s order)
    (hprog : Program cfg nRanks root algos counts) (htran : u.transfer algos = some tran)
    (htype : tran.type = .send) (hpeer : 0 ≤ (u.tb algos).sendpeer)
    (halgo : algos u.gpu = some algo) {i : Interpreter}
    (hstep : Step algo (s.interp u.gpu) (.fire (.runStep u.bid u.sid)) i)
    (hrunning : i.running = (s.interp u.gpu).running ++ [(u.bid, u.sid)])
    (hinterp : s'.interp = Function.update s.interp u.gpu i) (hmemory : s'.memory = s.memory)
    (hreceiving : s'.receiving = s.receiving)
    (hc : c = Collective.sendConn u.gpu (u.tb algos)) {captured : Option (List UInt8)}
    (hcaptured : ∀ data, captured = some data →
      data = (s.memory u.gpu).read (tran.source cfg))
    (hsending : s'.sending = Function.update s.sending c { s.sending c with
      queue := (s.sending c).queue ++ [⟨u.bid, u.sid, tran.source cfg, 0, captured⟩] }) :
    Simulates cfg root algos counts start s' (order ++ [u]) := by
  have hsend : (algo.mscclTBs u.bid).isSend u.sid = true := by simp [u.isSend_eq htran halgo, htype]
  have htracked : Tracked algos s'.interp (order ++ [u]) := by
    rw [hinterp]
    exact h.tracked.start_send hprog halgo htran hstep hrunning hsend
  have hmem : .runStep u.bid u.sid ∈ (s.interp u.gpu).pending := by
    cases hstep with
    | start hmem htran htype => exact hmem
    | ignore hmem htran htype => exact hmem
  obtain ⟨hidle, hnext⟩ := (h.tracked.reached _ _ halgo).accounted.idle_of_runStep hmem
  have hruns (op : Op) (hop : s.Runs op) : s'.Runs op := by
    apply hop.update hinterp
    intro _ hrun
    rw [hrunning]
    exact List.mem_append_left _ hrun
  have hu : s'.Runs u := by
    rw [Collective.Runs, hinterp, Function.update_self, Interpreter.Runs, hrunning]
    exact List.mem_append_right _ List.mem_cons_self
  have hkeeps : Keeps cfg algos (fun op => op = u) s s' :=
    ⟨fun op _ => hruns op, fun op tran buf x _ _ _ _ => by rw [hmemory]⟩
  -- the slot that it fills
  have hslot : u.slot algos .sending tran = some ⟨c, Side.sending.index (u.tb algos) u.sid⟩ := by
    apply Op.slot_eq_some.mpr
    refine ⟨⟨?_, hpeer⟩, ?_⟩
    · rw [htype]
      rfl
    · rw [hc]
      rfl
  have hon : u.on algos .sending c = true := Op.on_eq_true.mpr ⟨tran, htran, _, hslot, rfl⟩
  have hoff (c' : ConnId) : u.on algos .receiving c' = false := Op.not_on_receiving htran htype c'
  have hindex := h.tracked.index_of_next halgo htran hslot hnext
  simp only at hindex
  have hexec (slot : Slot) :
      ((settled cfg algos start order).exec cfg algos u).message slot =
        if slot = ⟨c, order.countP (Op.on algos .sending c)⟩ then
          (s.memory u.gpu).read (tran.source cfg)
        else (settled cfg algos start order).message slot := by
    rw [SeqState.exec_send _ htran hslot, h.read_source hprog htran htype htracked hruns hu, hindex]
  have hfront (k : Nat) (hk : k < order.countP (Op.on algos .sending c)) :
      ((settled cfg algos start order).exec cfg algos u).message ⟨c, k⟩ =
        (settled cfg algos start order).message ⟨c, k⟩ := by
    rw [hexec, if_neg]
    intro heq
    exact Nat.ne_of_lt hk (congrArg Slot.index heq)
  have hlast : ((settled cfg algos start order).exec cfg algos u).message
      ⟨c, order.countP (Op.on algos .sending c)⟩ = (s.memory u.gpu).read (tran.source cfg) := by
    rw [hexec, if_pos rfl]
  have hsize : msgSize cfg counts c (order.countP (Op.on algos .sending c)) =
      cfg.bytes tran.count := by
    rw [hindex]
    exact hprog.paired.msgSize_eq htran hslot
  apply h.settle hprog htran htracked hkeeps
  · apply h.memory_settle htran (fun op _ => hruns op)
    · intro gpu buf x _
      rw [hmemory]
    · intro buf x hx
      exact absurd hx (MscclTransfer.not_writes_of_send htype)
  · intro c'
    by_cases hcc : c' = c
    · subst hcc
      right
      rw [settled_append]
      constructor
      · rw [countP_append_of_on hon]
        apply (h.sized c').succ hfront
        rw [hlast, Memory.read_length, hsize]
        rfl
      · apply (h.linked c').started hon (hoff c') _ _ _ _ hfront hlast
        · exact fun op hop => Tracked.not_runs_of_idle hprog.paired hon hidle hop
        · intro hqueue
          rw [← hmemory]
          apply Queued.started htran hon (by rw [hc]; rfl) hu
          · rw [hsending, Function.update_self, hqueue]
            rfl
          · rw [hmemory]
            exact hcaptured
        · intro held hheld
          apply hheld.keep hkeeps _ (by rw [hreceiving])
          rintro op rfl
          exact hoff c'
        · rw [hsending, Function.update_self]
    · left
      refine ⟨?_, by rw [hsending, Function.update_of_ne hcc], by rw [hreceiving]⟩
      intro side
      cases side with
      | sending => exact Op.not_on_of_ne hon hcc
      | receiving => exact hoff c'

end

end CollectiveSim.Msccl
