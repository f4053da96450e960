import CollectiveSim.Msccl.Liveness

/-!
# Every schedule completes or none does

Each move uses up work of an interpreter, bytes to be sent or fragments on a wire. So a run can be
continued until it stops, and whether it is complete then depends on the document only.
-/

namespace CollectiveSim.Msccl

open Framework Interpreter

/-- The thread block has a peer to send to and something to send. -/
def MscclThreadBlock.Sends (tb : MscclThreadBlock) : Prop :=
  0 ≤ tb.sendpeer ∧ ∃ tran ∈ tb.transfers, tran.type = .send

instance : DecidablePred MscclThreadBlock.Sends := fun tb =>
  inferInstanceAs (Decidable (0 ≤ tb.sendpeer ∧ ∃ tran ∈ tb.transfers, tran.type = .send))

namespace Collective

variable {cfg : AppConfig} {nRanks : Nat} {root : XmlNode} {algos : Nat → Option MscclAlgorithm}
  {counts : ConnId → List Nat} {start : Nat → Memory} {s s' : Collective} {c : ConnId}
  {gpu bid : Nat} {algo : MscclAlgorithm}

theorem uses_of_sends (halgo : algos gpu = some algo) (hbid : bid < algo.nBlocks)
    (hsends : (algo.mscclTBs bid).Sends) :
    Side.sending.Uses algos (sendConn gpu (algo.mscclTBs bid)) gpu bid algo := by
  obtain ⟨hpeer, tran, hmem, htype⟩ := hsends
  exact ⟨halgo, hbid, rfl, hpeer, tran, hmem, (Side.has_sending_iff _).mpr htype⟩

theorem sends_of_uses (huses : Side.sending.Uses algos c gpu bid algo) :
    (algo.mscclTBs bid).Sends := by
  obtain ⟨tran, hmem, hhas⟩ := huses.has
  exact ⟨huses.peer, tran, hmem, (Side.has_sending_iff _).mp hhas⟩

/-! ### What moves use up -/

/-- A byte counts for its fragment's leaving and its arrival. -/
def load (cfg : AppConfig) (algo : MscclAlgorithm) (gpu bid : Nat) (s : Collective) : Nat :=
  if (algo.mscclTBs bid).Sends then
    2 * toLeave cfg algo gpu bid s + (s.sending (sendConn gpu (algo.mscclTBs bid))).wire.length
  else 0

def gpuLoad (cfg : AppConfig) (algo : MscclAlgorithm) (gpu : Nat) (s : Collective) : Nat :=
  work algo (s.interp gpu) + ∑ bid ∈ Finset.range algo.nBlocks, load cfg algo gpu bid s

/-- What the GPUs from `0` to `n` have left to do. -/
def totalLoad (cfg : AppConfig) (algos : Nat → Option MscclAlgorithm) (n : Nat) (s : Collective) :
    Nat :=
  ∑ gpu ∈ Finset.range n, ((algos gpu).map fun algo => gpuLoad cfg algo gpu s).getD 0

theorem load_eq (huses : Side.sending.Uses algos c gpu bid algo) :
    load cfg algo gpu bid s = 2 * toLeave cfg algo gpu bid s + (s.sending c).wire.length := by
  have hconn : sendConn gpu (algo.mscclTBs bid) = c := huses.conn
  rw [load, if_pos (sends_of_uses huses), hconn]

theorem load_le (halgo : algos gpu = some algo) (hbid : bid < algo.nBlocks)
    (h : ∀ c, Side.sending.Uses algos c gpu bid algo →
      2 * toLeave cfg algo gpu bid s' + (s'.sending c).wire.length ≤
        2 * toLeave cfg algo gpu bid s + (s.sending c).wire.length) :
    load cfg algo gpu bid s' ≤ load cfg algo gpu bid s := by
  rw [load, load]
  by_cases hsends : (algo.mscclTBs bid).Sends
  · rw [if_pos hsends, if_pos hsends]
    exact h _ (uses_of_sends halgo hbid hsends)
  · rw [if_neg hsends, if_neg hsends]

theorem totalLoad_lt {n : Nat} (hn : gpu < n) (halgo : algos gpu = some algo)
    (hle : ∀ gpu algo, algos gpu = some algo → gpuLoad cfg algo gpu s' ≤ gpuLoad cfg algo gpu s)
    (hlt : gpuLoad cfg algo gpu s' < gpuLoad cfg algo gpu s) :
    totalLoad cfg algos n s' < totalLoad cfg algos n s := by
  rw [totalLoad, totalLoad]
  apply Finset.sum_lt_sum
  · intro gpu' _
    cases halgo' : algos gpu' with
    | none => exact Nat.le_refl _
    | some algo' => exact hle gpu' algo' halgo'
  · refine ⟨gpu, Finset.mem_range.mpr hn, ?_⟩
    rw [halgo]
    exact hlt

theorem Change.work (h : Change cfg algos s s')
    (himp : ∀ gpu algo, algos gpu = some algo → AllImplemented algo)
    (hbound : ∀ gpu algo, algos gpu = some algo → Bounded algo)
    (halive : ∀ gpu algo, algos gpu = some algo → Alive algo (s.interp gpu)) :
    (s'.interp = s.interp ∧ ∃ c, (s'.sending c).wire ≠ (s.sending c).wire) ∨
    ∃ gpu algo i, algos gpu = some algo ∧ s'.interp = Function.update s.interp gpu i ∧
      work algo i < work algo (s.interp gpu) := by
  have hstep {algo : MscclAlgorithm} {i j : Interpreter} {a : Action} (hi : Alive algo i)
      (hj : Step algo i a j) : Interpreter.work algo j < Interpreter.work algo i :=
    hj.work_lt hi.reached.accounted hi.reached.inRange hi.unrepeated
  have htwo {gpu : Nat} {algo : MscclAlgorithm} {i j : Interpreter} {a b : Action}
      (halgo : algos gpu = some algo) (hi : Step algo (s.interp gpu) a i) (hj : Step algo i b j) :
      Interpreter.work algo j < Interpreter.work algo (s.interp gpu) :=
    Nat.lt_trans
      (hstep ((halive _ _ halgo).step (hbound _ _ halgo) (himp _ _ halgo) hi) hj)
      (hstep (halive _ _ halgo) hi)
  cases h with
  | control halgo hrun hi => exact Or.inr ⟨_, _, _, halgo, rfl, hstep (halive _ _ halgo) hi⟩
  | send halgo htran htype hon hqueue hi =>
      exact Or.inr ⟨_, _, _, halgo, rfl, hstep (halive _ _ halgo) hi⟩
  | copy halgo htran htype hi hj => exact Or.inr ⟨_, _, _, halgo, rfl, htwo halgo hi hj⟩
  | wait halgo htran htype hon hpeer hi =>
      exact Or.inr ⟨_, _, _, halgo, rfl, hstep (halive _ _ halgo) hi⟩
  | claim halgo htran htype hon hpeer hi hj =>
      exact Or.inr ⟨_, _, _, halgo, rfl, htwo halgo hi hj⟩
  | @emit u tran c m n payload htran hon hruns hqueue hsource hpos hle hlen =>
      left
      refine ⟨rfl, c, ?_⟩
      simp only [Function.update_self]
      simp
  | sent halgo htran hon hqueue hall hi =>
      exact Or.inr ⟨_, _, _, halgo, rfl, hstep (halive _ _ halgo) hi⟩
  | @store c payload held wire hwire hpeer =>
      left
      refine ⟨rfl, c, ?_⟩
      simp only [Function.update_self, hwire]
      simp
  | @fill u tran kind c payload held wire memory hwire hpeer =>
      left
      refine ⟨rfl, c, ?_⟩
      simp only [Function.update_self, hwire]
      simp
  | land halgo htran htype hon hwire hi =>
      exact Or.inr ⟨_, _, _, halgo, rfl, hstep (halive _ _ halgo) hi⟩

theorem Change.load_le (h : Change cfg algos s s') (hpaired : Paired algos counts)
    (himp : ∀ gpu algo, algos gpu = some algo → AllImplemented algo)
    (hbound : ∀ gpu algo, algos gpu = some algo → Bounded algo)
    (hreached : ∀ gpu algo, algos gpu = some algo → Reached algo (s.interp gpu))
    (halgo : algos gpu = some algo) (hbid : bid < algo.nBlocks) :
    load cfg algo gpu bid s' ≤ load cfg algo gpu bid s := by
  apply Collective.load_le halgo hbid
  intro c huses
  rcases h.leaves hpaired himp hbound hreached with
    ⟨c', payload, hemits, hother⟩ | ⟨hsuffix, hsame⟩
  · by_cases hc : c = c'
    · subst hc
      have hadd := hemits.toLeave_add huses
      have hpos := hemits.pos
      rw [hemits.wire, List.length_append, List.length_singleton]
      omega
    · rw [toLeave_congr huses (hother c hc) hemits.interp, hother c hc]
  · rw [hsame c gpu bid algo huses]
    exact Nat.add_le_add_left (hsuffix c).length_le _

theorem Change.load_lt (h : Change cfg algos s s') (hpaired : Paired algos counts)
    (himp : ∀ gpu algo, algos gpu = some algo → AllImplemented algo)
    (hbound : ∀ gpu algo, algos gpu = some algo → Bounded algo)
    (hreached : ∀ gpu algo, algos gpu = some algo → Reached algo (s.interp gpu))
    (hfrag : Fragmented cfg algos counts s) (hwire : (s'.sending c).wire ≠ (s.sending c).wire) :
    ∃ gpu bid algo, algos gpu = some algo ∧ bid < algo.nBlocks ∧
      load cfg algo gpu bid s' < load cfg algo gpu bid s := by
  rcases h.leaves hpaired himp hbound hreached with
    ⟨c', payload, hemits, hother⟩ | ⟨hsuffix, hsame⟩
  · obtain ⟨u, tran, m, htran, hon, -⟩ := hemits.message
    obtain ⟨algo, halgo, hbid, -, -⟩ := Op.transfer_eq_some.mp htran
    have huses := Op.uses_of_on halgo hon
    have hadd := hemits.toLeave_add huses
    have hpos := hemits.pos
    refine ⟨u.gpu, u.bid, algo, halgo, hbid, ?_⟩
    rw [load_eq huses, load_eq huses, hemits.wire, List.length_append, List.length_singleton]
    omega
  · obtain ⟨gone, hgone⟩ := hsuffix c
    cases gone with
    | nil => exact absurd hgone hwire
    | cons payload gone =>
        obtain ⟨-, gpu, bid, algo, -, -, huses, -⟩ :=
          hfrag c [] payload (gone ++ (s'.sending c).wire) hgone.symm
        refine ⟨gpu, bid, algo, huses.gpu_algo, huses.bid_lt, ?_⟩
        rw [load_eq huses, load_eq huses, hsame c gpu bid algo huses, ← hgone, List.length_append,
          List.length_cons]
        omega

/-- Every move uses up some of the load. -/
theorem Ongoing.totalLoad_lt (h : Ongoing cfg root algos counts start s)
    (hprog : Program cfg nRanks root algos counts) (hcalls : Runnable cfg algos counts) {n : Nat}
    (hn : ∀ gpu algo, algos gpu = some algo → gpu < n) {move : Move}
    (hstep : s.step cfg algos move = some s') : totalLoad cfg algos n s' < totalLoad cfg algos n s := by
  obtain ⟨order, hsim⟩ := h.simulates
  have hchange := hsim.change hprog hcalls hstep
  have himp : ∀ gpu algo, algos gpu = some algo → AllImplemented algo :=
    fun _ _ halgo => hcalls.allImplemented halgo
  have hbound : ∀ gpu algo, algos gpu = some algo → Bounded algo :=
    fun _ _ halgo => (hprog.accepted _ _ halgo).bounded (hprog.plain _ _ halgo)
  have hreached := hsim.tracked.reached
  have hload {gpu bid : Nat} {algo : MscclAlgorithm} (halgo : algos gpu = some algo)
      (hbid : bid < algo.nBlocks) : load cfg algo gpu bid s' ≤ load cfg algo gpu bid s :=
    hchange.load_le hprog.paired himp hbound hreached halgo hbid
  have hloads {gpu : Nat} {algo : MscclAlgorithm} (halgo : algos gpu = some algo) :
      ∑ bid ∈ Finset.range algo.nBlocks, load cfg algo gpu bid s' ≤
        ∑ bid ∈ Finset.range algo.nBlocks, load cfg algo gpu bid s :=
    Finset.sum_le_sum fun bid hbid => hload halgo (Finset.mem_range.mp hbid)
  rcases hchange.work himp hbound h.alive with
    ⟨hinterp, c, hwire⟩ | ⟨gpu, algo, i, halgo, hinterp, hwork⟩
  · obtain ⟨gpu, bid, algo, halgo, hbid, hlt⟩ :=
      hchange.load_lt hprog.paired himp hbound hreached h.fragmented hwire
    apply Collective.totalLoad_lt (hn gpu algo halgo) halgo
    · intro gpu algo halgo
      rw [gpuLoad, gpuLoad, hinterp]
      exact Nat.add_le_add_left (hloads halgo) _
    · rw [gpuLoad, gpuLoad, hinterp]
      apply Nat.add_lt_add_left
      apply Finset.sum_lt_sum
      · exact fun bid hbid => hload halgo (Finset.mem_range.mp hbid)
      · exact ⟨bid, Finset.mem_range.mpr hbid, hlt⟩
  · have hwork' : Interpreter.work algo (s'.interp gpu) < Interpreter.work algo (s.interp gpu) := by
      rw [hinterp, Function.update_self]
      exact hwork
    apply Collective.totalLoad_lt (hn gpu algo halgo) halgo
    · intro gpu' algo' halgo'
      rw [gpuLoad, gpuLoad]
      refine Nat.add_le_add ?_ (hloads halgo')
      by_cases hgpu : gpu' = gpu
      · subst hgpu
        obtain rfl := Option.some_inj.mp (halgo.symm.trans halgo')
        exact Nat.le_of_lt hwork'
      · rw [hinterp, Function.update_of_ne hgpu]
    · rw [gpuLoad, gpuLoad]
      exact Nat.add_lt_add_of_lt_of_le hwork' (hloads halgo)

/-! ### The order that a run has found -/

theorem Change.tracked {order : List Op} (h : Change cfg algos s s')
    (hprog : Program cfg nRanks root algos counts)
    (himp : ∀ gpu algo, algos gpu = some algo → AllImplemented algo)
    (htracked : Tracked algos s.interp order) :
    Tracked algos s'.interp order ∨
    ∃ u algo, algos u.gpu = some algo ∧ (u.transfer algos).isSome ∧
      (s.interp u.gpu).Started u.bid u.sid ∧ Tracked algos s'.interp (order ++ [u]) := by
  have hscheduled {u : Op} {algo : MscclAlgorithm} {i : Interpreter} (halgo : algos u.gpu = some algo)
      (hi : Step algo (s.interp u.gpu) (.fire (.runStep u.bid u.sid)) i) :
      (s.interp u.gpu).Started u.bid u.sid := by
    have hmem : .runStep u.bid u.sid ∈ (s.interp u.gpu).pending := by
      cases hi with
      | start hmem htran htype => exact hmem
      | ignore hmem htran htype => exact hmem
    obtain ⟨hbusy, hsid⟩ := (htracked.reached _ _ halgo).accounted.of_runStep hmem
    exact Or.inr ⟨hsid, hbusy⟩
  have hrunning {u : Op} {algo : MscclAlgorithm} {i : Interpreter} (halgo : algos u.gpu = some algo)
      (hi : Step algo (s.interp u.gpu) (.finish u.bid u.sid) i) :
      (s.interp u.gpu).Started u.bid u.sid := by
    have hmem : (u.bid, u.sid) ∈ (s.interp u.gpu).running := by
      cases hi with
      | finish hmem => exact hmem
    obtain ⟨hbusy, hsid⟩ := (htracked.reached _ _ halgo).accounted.of_running hmem
    exact Or.inr ⟨hsid, hbusy⟩
  have hnosend {u : Op} {algo : MscclAlgorithm} {tran : MscclTransfer}
      (halgo : algos u.gpu = some algo) (htran : u.transfer algos = some tran)
      (htype : tran.type ≠ .send) : (algo.mscclTBs u.bid).isSend u.sid = false := by
    rw [Op.isSend_eq htran halgo]
    exact decide_eq_false htype
  have hstart {u : Op} {algo : MscclAlgorithm} {tran : MscclTransfer} {i : Interpreter}
      (halgo : algos u.gpu = some algo) (htran : u.transfer algos = some tran)
      (htype : tran.type ≠ .send)
      (hi : Step algo (s.interp u.gpu) (.fire (.runStep u.bid u.sid)) i) :
      Tracked algos (Function.update s.interp u.gpu i) order :=
    htracked.start hprog halgo hi
      (hi.running_start (himp _ _ halgo) (htracked.reached _ _ halgo)) (hnosend halgo htran htype)
  have hthrough {u : Op} {algo : MscclAlgorithm} {tran : MscclTransfer} {i j : Interpreter}
      (halgo : algos u.gpu = some algo) (htran : u.transfer algos = some tran)
      (htype : tran.type ≠ .send)
      (hi : Step algo (s.interp u.gpu) (.fire (.runStep u.bid u.sid)) i)
      (hj : Step algo i (.finish u.bid u.sid) j) :
      Tracked algos (Function.update s.interp u.gpu j) (order ++ [u]) := by
    have hmid := hstart halgo htran htype hi
    have hj' : Step algo (Function.update s.interp u.gpu i u.gpu) (.finish u.bid u.sid) j := by
      rwa [Function.update_self]
    have hend := hmid.finish hprog halgo htran hj' (hnosend halgo htran htype)
    rwa [Function.update_idem] at hend
  cases h with
  | control halgo hrun hi => exact Or.inl (htracked.control hprog halgo hi hrun)
  | @send u algo tran c i captured halgo htran htype hon hqueue hi =>
      have hsend : (algo.mscclTBs u.bid).isSend u.sid = true := by
        rw [Op.isSend_eq htran halgo]
        exact decide_eq_true htype
      exact Or.inr ⟨u, algo, halgo, by rw [htran]; rfl, hscheduled halgo hi,
        htracked.start_send hprog halgo htran hi
          (hi.running_start (himp _ _ halgo) (htracked.reached _ _ halgo)) hsend⟩
  | @copy u algo tran i j memory halgo htran htype hi hj =>
      exact Or.inr ⟨u, algo, halgo, by rw [htran]; rfl, hscheduled halgo hi,
        hthrough halgo htran (by rw [htype]; decide) hi hj⟩
  | wait halgo htran htype hon hpeer hi =>
      exact Or.inl (hstart halgo htran (by rw [htype]; exact RecvOp.type_ne_send _) hi)
  | @claim u algo tran kind c i j held rest memory halgo htran htype hon hpeer hi hj =>
      exact Or.inr ⟨u, algo, halgo, by rw [htran]; rfl, hscheduled halgo hi,
        hthrough halgo htran (by rw [htype]; exact kind.type_ne_send) hi hj⟩
  | emit htran hon hruns hqueue hsource hpos hle hlen => exact Or.inl htracked
  | @sent u algo tran c m i halgo htran hon hqueue hall hi =>
      have hsend : (algo.mscclTBs u.bid).isSend u.sid = true := by
        rw [Op.isSend_eq htran halgo]
        exact decide_eq_true (Side.has_sending (Op.has_of_on htran hon))
      exact Or.inl (htracked.finish_send hprog halgo hi hsend)
  | store hwire hpeer => exact Or.inl htracked
  | fill hwire hpeer => exact Or.inl htracked
  | @land u algo tran kind c i payload wire memory halgo htran htype hon hwire hi =>
      exact Or.inr ⟨u, algo, halgo, by rw [htran]; rfl, hrunning halgo hi,
        htracked.finish hprog halgo htran hi
          (hnosend halgo htran (by rw [htype]; exact kind.type_ne_send))⟩

theorem exists_index {side : Side} {tb : MscclThreadBlock} {k m : Nat} (h : k < side.index tb m) :
    ∃ sid tran, sid < m ∧ tb.transfers[sid]? = some tran ∧ side.Has tran.type = true ∧
      side.index tb sid = k := by
  induction m with
  | zero => exact absurd h (Nat.not_lt_zero k)
  | succ m ih =>
      have hearlier (hlt : k < side.index tb m) : ∃ sid tran, sid < m + 1 ∧
          tb.transfers[sid]? = some tran ∧ side.Has tran.type = true ∧ side.index tb sid = k := by
        obtain ⟨sid, tran, hsid, hfound⟩ := ih hlt
        exact ⟨sid, tran, Nat.lt_succ_of_lt hsid, hfound⟩
      cases htran : tb.transfers[m]? with
      | none =>
          have hle := List.getElem?_eq_none_iff.mp htran
          rw [Side.index, List.take_of_length_le (Nat.le_succ_of_le hle),
            ← List.take_of_length_le hle] at h
          exact hearlier h
      | some tran =>
          rw [side.index_succ htran] at h
          by_cases hhas : side.Has tran.type = true
          · rw [if_pos hhas] at h
            rcases Nat.lt_or_eq_of_le (Nat.le_of_lt_succ h) with hlt | heq
            · exact hearlier hlt
            · exact ⟨m, tran, Nat.lt_succ_self m, htran, hhas, heq.symm⟩
          · rw [if_neg hhas] at h
            exact hearlier h

theorem exists_transfer {order : List Op} (h : Tracked algos s.interp order) {side : Side} {k : Nat}
    (hk : k < order.countP (Op.on algos side c)) :
    ∃ a tran, a.transfer algos = some tran ∧ a.slot algos side tran = some ⟨c, k⟩ ∧ a ∈ order := by
  obtain ⟨b, hb, hon⟩ := List.countP_pos_iff.mp (Nat.lt_of_le_of_lt (Nat.zero_le k) hk)
  obtain ⟨algo, tran, halgo, htran, hcovered⟩ := (h.mem b).mp hb
  have huses := Op.uses_of_on halgo hon
  rw [h.count _ _ _ _ _ huses] at hk
  obtain ⟨sid, tran', hsid, hget, hhas, hindex⟩ := exists_index hk
  let a : Op := ⟨b.gpu, b.bid, sid⟩
  have htb : a.tb algos = algo.mscclTBs b.bid := Op.tb_eq halgo
  have ha : a.transfer algos = some tran' :=
    Op.transfer_eq_some.mpr ⟨algo, halgo, huses.bid_lt, htb, hget⟩
  refine ⟨a, tran', ha, Op.slot_eq_some.mpr ⟨⟨hhas, ?_⟩, ?_⟩,
    (h.mem a).mpr ⟨algo, tran', halgo, ha, hsid⟩⟩
  · rw [htb]
    exact huses.peer
  · rw [htb, hindex, huses.conn]

theorem Ongoing.exists_sender (h : Ongoing cfg root algos counts start s)
    (hpaired : Paired algos counts) {order : List Op} (htracked : Tracked algos s.interp order)
    {op : Op} {tran : MscclTransfer} {slot : Slot} (htran : op.transfer algos = some tran)
    (htakes : op.takes cfg algos tran = some slot) (hmem : op ∈ order) :
    ∃ a tran', a.transfer algos = some tran' ∧ a.slot algos .sending tran' = some slot ∧
      a ∈ order := by
  obtain ⟨order', hsim⟩ := h.simulates
  obtain ⟨hpos, hslot⟩ := Op.takes_eq_some.mp htakes
  have hmem' := (hsim.tracked.mem op).mpr ((htracked.mem op).mp hmem)
  have hindex := (hsim.tracked.mem_iff_index_lt htran hslot).mp hmem'
  have hsize : msgSize cfg counts slot.conn slot.index = cfg.bytes tran.count :=
    hpaired.msgSize_eq htran hslot
  rw [← hsize] at hpos
  obtain ⟨taken, held, unsent, -, -, htaken, hstream⟩ := hsim.linked slot.conn
  have hsent := (hsim.sized slot.conn).lt_of_taken hstream (Nat.le_of_eq htaken.symm) hindex hpos
  obtain ⟨a, tran', ha, hsend, hmem⟩ := exists_transfer hsim.tracked hsent
  exact ⟨a, tran', ha, hsend, (htracked.mem a).mpr ((hsim.tracked.mem a).mp hmem)⟩

theorem exists_publisher {order : List Op} (htracked : Tracked algos s.interp order) {op : Op}
    {tran : MscclTransfer} (htran : op.transfer algos = some tran)
    (hstarted : (s.interp op.gpu).Started op.bid op.sid) {dep : Int × Int}
    (hdep : dep ∈ (op.tb algos).dependences tran) :
    computeFlag 0 0 dep.2 ≤ -1 ∨ ∃ a : Op, a.gpu = op.gpu ∧ (a.transfer algos).isSome ∧
      dep.1 = a.bid ∧ computeFlag 0 0 dep.2 ≤ (a.tb algos).start (a.sid + 1) - 1 ∧ a ∈ order := by
  obtain ⟨algo, halgo, hbid, htb, hget⟩ := Op.transfer_eq_some.mp htran
  have hreached := htracked.reached _ _ halgo
  rw [htb] at hdep
  have hready := hreached.flagged.ready op.bid op.sid tran hstarted hget dep hdep
  by_cases hlow : computeFlag 0 0 dep.2 ≤ -1
  · exact Or.inl hlow
  · right
    have hknown : ∃ d : Nat, d < algo.nBlocks ∧ dep.1 = d := by
      by_contra hnone
      have hflag := hreached.flagged.unknown dep.1 fun d hd heq => hnone ⟨d, hd, heq⟩
      omega
    obtain ⟨d, hd, hdd⟩ := hknown
    rw [hdd, hreached.flagged.flag d hd] at hready
    have hpos : ((s.interp op.gpu).tbs d).localStep ≠ 0 := by
      intro hzero
      rw [hzero, MscclThreadBlock.start_zero] at hready
      omega
    obtain ⟨t, ht⟩ := Nat.exists_eq_succ_of_ne_zero hpos
    have hle := hreached.accounted.localStep_le d
    have hlt : t < (algo.mscclTBs d).transfers.length := by
      rw [ht] at hle
      exact hle
    let a : Op := ⟨op.gpu, d, t⟩
    have hatb : a.tb algos = algo.mscclTBs d := Op.tb_eq halgo
    have ha : a.transfer algos = some _ :=
      Op.transfer_eq_some.mpr ⟨algo, halgo, hd, hatb, List.getElem?_eq_getElem hlt⟩
    have hcovered := localStep_le_covered algo (s.interp op.gpu) d
    refine ⟨a, rfl, by rw [ha]; rfl, hdd, ?_, (htracked.mem a).mpr ⟨algo, _, halgo, ha, ?_⟩⟩
    · rw [hatb]
      rw [ht] at hready
      exact hready
    · rw [ht] at hcovered
      exact hcovered

/-- A history with, in front of each transfer, all that it waits for. -/
structure Chronicle (cfg : AppConfig) (algos : Nat → Option MscclAlgorithm) (s : Collective)
    (order : List Op) : Prop where
  tracked : Tracked algos s.interp order
  met : ∀ front op back tran, order = front ++ op :: back → op.transfer algos = some tran →
    op.Met cfg algos (fun a => a ∈ front) tran

theorem Chronicle.step {order : List Op} (h : Chronicle cfg algos s order)
    (hprog : Program cfg nRanks root algos counts)
    (himp : ∀ gpu algo, algos gpu = some algo → AllImplemented algo)
    (hnext : Ongoing cfg root algos counts start s') (hchange : Change cfg algos s s') :
    ∃ order', Chronicle cfg algos s' order' := by
  rcases hchange.tracked hprog himp h.tracked with hsame | ⟨u, algo, halgo, hu, hstarted, hadd⟩
  · exact ⟨order, hsame, h.met⟩
  · refine ⟨order ++ [u], hadd, fun front op back tran heq htran => ?_⟩
    rcases List.eq_nil_or_concat back with rfl | ⟨back', last, rfl⟩
    · -- the new transfer: what it waits for is settled, and not by itself
      obtain ⟨rfl, hlast⟩ := List.append_inj' heq rfl
      obtain rfl : u = op := by
        cases hlast
        rfl
      have hmem : u ∈ order ++ [u] := List.mem_append_right _ List.mem_cons_self
      have hother {a : Op} (ha : a ∈ order ++ [u]) (hne : a ≠ u) : a ∈ order := by
        rcases List.mem_append.mp ha with ha | ha
        · exact ha
        · exact absurd (List.mem_singleton.mp ha) hne
      constructor
      · intro sid hsid
        obtain ⟨algo', tran', halgo', -, hcovered⟩ := (hadd.mem u).mp hmem
        obtain ⟨algo'', halgo'', hbid, -, hget⟩ := Op.transfer_eq_some.mp htran
        obtain rfl := Option.some_inj.mp (halgo'.symm.trans halgo'')
        have hlt := Nat.lt_trans hsid (List.getElem?_eq_some_iff.mp hget).1
        let a : Op := ⟨u.gpu, u.bid, sid⟩
        have ha : a.transfer algos = some _ :=
          Op.transfer_eq_some.mpr ⟨algo', halgo', hbid, Op.tb_eq halgo', List.getElem?_eq_getElem hlt⟩
        apply hother ((hadd.mem a).mpr ⟨algo', _, halgo', ha, Nat.lt_trans hsid hcovered⟩)
        intro heq
        have hsame : sid = u.sid := congrArg Op.sid heq
        omega
      · intro dep hdep
        exact exists_publisher h.tracked htran hstarted hdep
      · intro slot htakes
        obtain ⟨a, tran', ha, hsend, hmem'⟩ :=
          hnext.exists_sender hprog.paired hadd htran htakes hmem
        refine ⟨a, tran', ha, hsend, hother hmem' ?_⟩
        rintro rfl
        obtain rfl := Option.some_inj.mp (htran.symm.trans ha)
        have hsends := Side.has_sending (Op.slot_eq_some.mp hsend).1.1
        have hreceives := (Op.slot_eq_some.mp (Op.takes_eq_some.mp htakes).2).1.1
        rw [hsends] at hreceives
        cases hreceives
    · have heq' : order ++ [u] = (front ++ op :: back') ++ [last] := by
        rw [heq]
        simp
      exact h.met front op back' tran (List.append_inj' heq' rfl).1 htran

theorem exists_chronicle (hprog : Program cfg nRanks root algos counts)
    (hcalls : Runnable cfg algos counts) {moves : List Move}
    (hrun : Run (Collective.step cfg algos) anyEvent (initial algos start) moves s) :
    ∃ order, Chronicle cfg algos s order := by
  have hkeep : ∀ s move t, Ongoing cfg root algos counts start s ∧ (∃ order, Chronicle cfg algos s order) →
      anyEvent s move → Collective.step cfg algos s move = some t →
        Ongoing cfg root algos counts start t ∧ ∃ order, Chronicle cfg algos t order := by
    rintro s move t ⟨hong, order, hchron⟩ - hstep
    have hnext := hong.step hprog hcalls hstep
    obtain ⟨order', hsim⟩ := hong.simulates
    exact ⟨hnext, hchron.step hprog (fun _ _ halgo => hcalls.allImplemented halgo) hnext
      (hsim.change hprog hcalls hstep)⟩
  have hstart : Chronicle cfg algos (initial algos start) [] :=
    ⟨(simulates_initial hprog start).tracked, fun front op back _ heq => by simp at heq⟩
  exact (hrun.invariant hkeep ⟨ongoing_initial hprog start, [], hstart⟩).2

/-- A complete run has ranked the transfers. -/
theorem Chronicle.feasible {order : List Op} (h : Chronicle cfg algos s order)
    (hcomplete : s.Complete algos) : Feasible cfg algos := by
  refine ⟨fun op => order.idxOf op, fun op tran htran => ?_⟩
  have hmem : op ∈ order := by
    obtain ⟨algo, halgo, hbid, -, hget⟩ := Op.transfer_eq_some.mp htran
    have hlt : op.sid < (algo.mscclTBs op.bid).nsteps := (List.getElem?_eq_some_iff.mp hget).1
    have hdone := hcomplete _ _ halgo _ hbid
    have hle := localStep_le_covered algo (s.interp op.gpu) op.bid
    exact (h.tracked.mem op).mpr ⟨algo, tran, halgo, htran, by omega⟩
  obtain ⟨front, back, heq⟩ := List.append_of_mem hmem
  apply (h.met front op back tran heq htran).mono
  intro a ha
  have hnot : op ∉ front := by
    intro hop
    have hnodup := h.tracked.nodup
    rw [heq] at hnodup
    exact (List.nodup_append'.mp hnodup).2.2 hop List.mem_cons_self
  show order.idxOf a < order.idxOf op
  rw [heq, List.idxOf_append_of_mem ha, List.idxOf_append_of_notMem hnot, List.idxOf_cons_self,
    Nat.add_zero]
  exact List.idxOf_lt_length_of_mem ha

end Collective

/-! ### One message between two GPUs, its receive posted late -/

namespace TwoGpus

variable {algos : Nat → Option MscclAlgorithm} {a b : MscclAlgorithm}

theorem runnable (h : TwoGpus algos a b) : Runnable oneNumber algos fun _ => [1] where
  callable op tran htran := by
    rcases h.op_cases htran with ⟨rfl, htb, rfl⟩ | ⟨rfl, htb, rfl⟩ | ⟨rfl, htb, rfl⟩
    · rw [htb]
      exact ⟨by decide, by decide, by decide, by decide⟩
    · rw [htb]
      exact ⟨by decide, by decide, by decide, by decide⟩
    · rw [htb]
      exact ⟨by decide, by decide⟩
  bytes_lt c := by
    have hfour : bytesBefore oneNumber (fun _ => [1]) c 1 = 4 := rfl
    show bytesBefore oneNumber (fun _ => [1]) c 1 < 2 ^ 32
    rw [hfour]
    decide

theorem send_transfer (h : TwoGpus algos a b) :
    (⟨0, 0, 0⟩ : Op).transfer algos = some (oneChunk .send 0) := by
  refine Op.transfer_eq_some.mpr ⟨a, h.first, ?_, Op.tb_eq h.first, ?_⟩
  · rw [h.sender.1]
    exact Nat.one_pos
  · rw [h.sender.2]
    rfl

theorem recv_transfer (h : TwoGpus algos a b) :
    (⟨1, 0, 0⟩ : Op).transfer algos = some (oneChunk .recv 0) := by
  refine Op.transfer_eq_some.mpr ⟨b, h.second, ?_, Op.tb_eq h.second, ?_⟩
  · rw [h.receiver.1]
    exact Nat.two_pos
  · rw [h.receiver.2.1]
    rfl

theorem feasible (h : TwoGpus algos a b) : Feasible oneNumber algos := by
  refine ⟨fun op => op.gpu + op.bid, fun op tran htran => ?_⟩
  rcases h.op_cases htran with ⟨rfl, htb, rfl⟩ | ⟨rfl, htb, rfl⟩ | ⟨rfl, htb, rfl⟩
  · refine ⟨fun sid hsid => absurd hsid (Nat.not_lt_zero sid), fun dep hdep => ?_, ?_⟩
    · rw [htb] at hdep
      cases hdep
    · intro slot htakes
      have hhas := (Op.slot_eq_some.mp (Op.takes_eq_some.mp htakes).2).1.1
      cases hhas
  · refine ⟨fun sid hsid => absurd hsid (Nat.not_lt_zero sid), fun dep hdep => ?_, ?_⟩
    · rw [htb] at hdep
      cases hdep
    · intro slot htakes
      obtain ⟨-, hslot⟩ := Op.takes_eq_some.mp htakes
      obtain ⟨-, rfl⟩ := Op.slot_eq_some.mp hslot
      have htb' : (⟨0, 0, 0⟩ : Op).tb algos = oneChunkBlock 1 (-1) .send [] := by
        rw [Op.tb_eq h.first]
        exact h.sender.2
      refine ⟨⟨0, 0, 0⟩, oneChunk .send 0, h.send_transfer,
        Op.slot_eq_some.mpr ⟨⟨rfl, ?_⟩, ?_⟩, Nat.one_pos⟩
      · rw [htb']
        decide
      · rw [htb', htb]
        rfl
  · refine ⟨fun sid hsid => absurd hsid (Nat.not_lt_zero sid), fun dep hdep => Or.inr ?_, ?_⟩
    · rw [htb] at hdep
      obtain rfl : dep = (0, 0) := List.mem_singleton.mp hdep
      have htb' : (⟨1, 0, 0⟩ : Op).tb algos = oneChunkBlock (-1) 0 .recv [] := by
        rw [Op.tb_eq h.second]
        exact h.receiver.2.1
      refine ⟨⟨1, 0, 0⟩, rfl, ?_, rfl, ?_, Nat.lt_succ_self 1⟩
      · rw [h.recv_transfer]
        rfl
      · rw [htb']
        decide
    · intro slot htakes
      have hhas := (Op.slot_eq_some.mp (Op.takes_eq_some.mp htakes).2).1.1
      cases hhas

end TwoGpus

/-- The first moves of `earlyFragment`: a fragment waits for its receive. -/
def fragmentWaits : List Move :=
  [.fire 0 (.tryScheduleNextStep 0), .fire 0 (.runStep 0 0), .emit ⟨0, 0, 1⟩ 1, .arrive ⟨0, 0, 1⟩]

namespace Collective

variable {cfg : AppConfig} {nRanks : Nat} {root : XmlNode} {algos : Nat → Option MscclAlgorithm}
  {counts : ConnId → List Nat} {start : Nat → Memory} {s : Collective}

/-! ### Whole runs -/

theorem Ongoing.exists_stopped (h : Ongoing cfg root algos counts start s)
    (hprog : Program cfg nRanks root algos counts) (hcalls : Runnable cfg algos counts)
    (hn : ∀ gpu algo, algos gpu = some algo → gpu < nRanks) :
    ∃ more t, Run (Collective.step cfg algos) anyEvent s more t ∧ Stopped cfg algos t := by
  have huse : ∀ s move t, Ongoing cfg root algos counts start s →
      Collective.step cfg algos s move = some t → Ongoing cfg root algos counts start t ∧
        totalLoad cfg algos nRanks t < totalLoad cfg algos nRanks s :=
    fun s move t h hstep => ⟨h.step hprog hcalls hstep, h.totalLoad_lt hprog hcalls hn hstep⟩
  exact Run.exists_stopped huse s h

theorem length_le (hprog : Program cfg nRanks root algos counts) (hcalls : Runnable cfg algos counts)
    (hn : ∀ gpu algo, algos gpu = some algo → gpu < nRanks) {moves : List Move}
    (hrun : Run (Collective.step cfg algos) anyEvent (initial algos start) moves s) :
    moves.length ≤ totalLoad cfg algos nRanks (initial algos start) := by
  have huse : ∀ s move t, Ongoing cfg root algos counts start s →
      Collective.step cfg algos s move = some t → Ongoing cfg root algos counts start t ∧
        totalLoad cfg algos nRanks t < totalLoad cfg algos nRanks s :=
    fun s move t h hstep => ⟨h.step hprog hcalls hstep, h.totalLoad_lt hprog hcalls hn hstep⟩
  have hle := hrun.length_add_le huse (ongoing_initial hprog start)
  omega

end Collective

end CollectiveSim.Msccl
