import CollectiveSim.Msccl.Moves

/-!
# All schedules of a collective give the same result

However the GPUs' events, the fragments and the completions are interleaved, a complete run leaves the
buffers as executing the transfers one after the other does.
-/

namespace CollectiveSim.Msccl

open Framework Interpreter

/-- All transfers of every thread block are reported complete. -/
def Collective.Complete (algos : Nat → Option MscclAlgorithm) (s : Collective) : Prop :=
  ∀ gpu algo, algos gpu = some algo → ∀ bid < algo.nBlocks,
    ((s.interp gpu).tbs bid).localStep = (algo.mscclTBs bid).nsteps

section

variable {cfg : AppConfig} {nRanks : Nat} {root : XmlNode} {algos : Nat → Option MscclAlgorithm}
  {counts : ConnId → List Nat} {start : Nat → Memory} {s : Collective} {order : List Op}
  {moves : List Move}

theorem simulates_initial (hprog : Program cfg nRanks root algos counts) (start : Nat → Memory) :
    Simulates cfg root algos counts start (Collective.initial algos start) [] where
  tracked := by
    apply tracked_initial
    intro gpu algo halgo
    have hok := (hprog.accepted _ _ halgo).isValid
    have hinit := (interpretAlgo_eq_some algo).mpr ⟨⟨hok, hprog.blocks _ _ halgo⟩, rfl⟩
    simp only [Collective.initial, halgo, Option.bind_some, hinit, Option.getD_some]
  respects := List.Pairwise.nil
  memory _ _ _ _ := rfl
  sized _ k hk := absurd hk (Nat.not_lt_zero k)
  linked _ := ⟨[], [], [], .idle rfl, .unclaimed rfl, rfl, rfl⟩

/-- Every run has a history. -/
theorem Program.simulates (hprog : Program cfg nRanks root algos counts)
    (hrun : Run (Collective.step cfg algos) anyEvent (Collective.initial algos start) moves s) :
    ∃ order, Simulates cfg root algos counts start s order := by
  have hkeep : ∀ s move t, (∃ order, Simulates cfg root algos counts start s order) →
      anyEvent s move → Collective.step cfg algos s move = some t →
        ∃ order, Simulates cfg root algos counts start t order := by
    rintro s move t ⟨order, h⟩ - hstep
    exact h.step hprog hstep
  exact hrun.invariant hkeep ⟨[], simulates_initial hprog start⟩

theorem Simulates.not_runs (h : Simulates cfg root algos counts start s order)
    (hcomplete : s.Complete algos) {op : Op} {tran : MscclTransfer}
    (htran : op.transfer algos = some tran) : ¬ s.Runs op := by
  intro hop
  obtain ⟨algo, halgo, hbid, -, hget⟩ := Op.transfer_eq_some.mp htran
  have hlt : op.sid < (algo.mscclTBs op.bid).nsteps := (List.getElem?_eq_some_iff.mp hget).1
  have hcur := ((h.tracked.reached _ _ halgo).accounted.of_running hop).2
  have hdone := hcomplete _ _ halgo _ hbid
  omega

/-- The history of a complete run has all transfers. -/
theorem Simulates.isOrder (h : Simulates cfg root algos counts start s order)
    (hcomplete : s.Complete algos) : IsOrder cfg root algos order where
  nodup := h.tracked.nodup
  respects := h.respects
  mem op := by
    rw [h.tracked.mem, Option.isSome_iff_exists]
    constructor
    · rintro ⟨algo, tran, halgo, htran, hlt⟩
      exact ⟨tran, htran⟩
    · rintro ⟨tran, htran⟩
      obtain ⟨algo, halgo, hbid, -, hget⟩ := Op.transfer_eq_some.mp htran
      have hlt : op.sid < (algo.mscclTBs op.bid).nsteps := (List.getElem?_eq_some_iff.mp hget).1
      have hdone := hcomplete _ _ halgo _ hbid
      have hle := localStep_le_covered algo (s.interp op.gpu) op.bid
      exact ⟨algo, tran, halgo, htran, by omega⟩

theorem Simulates.memory_of_complete (h : Simulates cfg root algos counts start s order)
    (hcomplete : s.Complete algos) : (settled cfg algos start order).memory = s.memory := by
  funext gpu buf x
  symm
  apply h.memory
  rintro ⟨op, tran, hgpu, hop, htran, htype, hwrites⟩
  exact h.not_runs hcomplete htran hop

/-- Every complete run of an accepted document leaves the buffers of all GPUs as executing its
transfers one after the other does, in any order that respects the program order of the thread blocks,
the dependences, and that a message is sent before it is received. -/
theorem memory_eq_of_complete
    (hparse : parseAlgoXml nRanks (some (some root)) = .ok algos)
    (hplain : ∀ gpu algo, algos gpu = some algo → PlainAlgorithm root gpu algo)
    (hblocks : ∀ gpu algo, algos gpu = some algo → algo.nBlocks ≤ 127)
    (hpaired : Paired algos counts) (hordered : ConflictsOrdered cfg root algos)
    (hrun : Run (Collective.step cfg algos) anyEvent (Collective.initial algos start) moves s)
    (hcomplete : s.Complete algos) :
    (∃ order, IsOrder cfg root algos order) ∧
      ∀ order, IsOrder cfg root algos order →
        (order.foldl (SeqState.exec cfg algos) (.initial start)).memory = s.memory := by
  have hprog : Program cfg nRanks root algos counts :=
    ⟨fun _ _ halgo => accepted_of_parseAlgoXml hparse halgo, hplain, hblocks, hpaired, hordered⟩
  obtain ⟨order, h⟩ := hprog.simulates hrun
  have hisOrder := h.isOrder hcomplete
  constructor
  · exact ⟨order, hisOrder⟩
  · intro order' horder'
    rw [horder'.foldl_eq hpaired hordered hisOrder]
    exact h.memory_of_complete hcomplete

end

/-! ### One message between two GPUs -/

/-- The first GPU sends its chunk to the second, which overwrites it with its own once it is there. -/
def sendAndReceive : XmlNode :=
  .element "algo" [("name", "pair"), ("ngpus", "2"), ("nchannels", "1"), ("nchunksperloop", "1"),
    ("coll", "custom")]
    [.element "gpu" [("id", "0"), ("i_chunks", "1"), ("o_chunks", "1"), ("s_chunks", "0")]
      [.element "tb" [("id", "0"), ("send", "1"), ("recv", "-1"), ("chan", "0")]
        [stepElement "s" "0" "-1" "-1"]],
    .element "gpu" [("id", "1"), ("i_chunks", "1"), ("o_chunks", "1"), ("s_chunks", "0")]
      [.element "tb" [("id", "0"), ("send", "-1"), ("recv", "0"), ("chan", "0")]
        [stepElement "r" "0" "-1" "-1"],
      tbElement "1" [stepElement "cpy" "0" "0" "0"]]]

/-- One 32-bit number for a chunk. -/
def oneNumber : AppConfig where
  dataType := .int32
  floatSums := .machine
  chunkSize := 1
  isRdmaPeer _ _ := false
  bufferLen _ _ := 1

/-- The GPU's number in every byte. -/
def numbered : Nat → Memory := fun gpu _ _ => UInt8.ofNat (gpu + 1)

/-- The message arrives in two fragments, the first of them before the receive is posted; the copy is
tried before it may run. -/
def earlyFragment : List Move :=
  [.fire 0 (.tryScheduleNextStep 0), .fire 0 (.runStep 0 0), .emit ⟨0, 0, 1⟩ 1, .arrive ⟨0, 0, 1⟩,
   .fire 1 (.tryScheduleNextStep 1), .fire 1 (.tryScheduleNextStep 0), .fire 1 (.runStep 0 0),
   .emit ⟨0, 0, 1⟩ 3, .sent ⟨0, 0, 1⟩, .arrive ⟨0, 0, 1⟩, .fire 1 (.stepCompletion 0 0),
   .fire 0 (.stepCompletion 0 0), .fire 1 (.tryScheduleNextStep 1), .fire 1 (.runStep 1 0),
   .fire 1 (.stepCompletion 1 0)]

/-- The transfer of one chunk from the input to the output. -/
def oneChunk (type : TransferType) (numDependences : Nat) : MscclTransfer :=
  { MscclTransfer.zero with
    dstbuffer := .output
    numDependences := numDependences
    type := type
    count := 1
    mscclFlowId := 2 ^ 32 - 1 }

def oneChunkBlock (sendpeer recvpeer : Int) (type : TransferType) (deps : List (Int × Int)) :
    MscclThreadBlock :=
  { MscclThreadBlock.zero with
    sendpeer := sendpeer
    recvpeer := recvpeer
    dependentBid := deps.map Prod.fst
    dependentStep := deps.map Prod.snd
    transfers := [oneChunk type deps.length] }

/-- The algorithms that `sendAndReceive` gives to its GPUs. -/
structure TwoGpus (algos : Nat → Option MscclAlgorithm) (a b : MscclAlgorithm) : Prop where
  gpus : ∀ gpu algo, algos gpu = some algo → gpu = 0 ∨ gpu = 1
  first : algos 0 = some a
  second : algos 1 = some b
  sender : a.nBlocks = 1 ∧ a.mscclTBs 0 = oneChunkBlock 1 (-1) .send []
  receiver : b.nBlocks = 2 ∧ b.mscclTBs 0 = oneChunkBlock (-1) 0 .recv [] ∧
    b.mscclTBs 1 = oneChunkBlock (-1) (-1) .localCopy [(0, 0)]

namespace TwoGpus

variable {algos : Nat → Option MscclAlgorithm} {a b algo : MscclAlgorithm} {gpu bid : Nat}

theorem block_cases (h : TwoGpus algos a b) (halgo : algos gpu = some algo) (hbid : bid < algo.nBlocks) :
    (gpu = 0 ∧ bid = 0 ∧ algo.mscclTBs bid = oneChunkBlock 1 (-1) .send []) ∨
    (gpu = 1 ∧ bid = 0 ∧ algo.mscclTBs bid = oneChunkBlock (-1) 0 .recv []) ∨
    (gpu = 1 ∧ bid = 1 ∧ algo.mscclTBs bid = oneChunkBlock (-1) (-1) .localCopy [(0, 0)]) := by
  rcases h.gpus gpu algo halgo with rfl | rfl
  · obtain rfl := Option.some_inj.mp (h.first.symm.trans halgo)
    rw [h.sender.1] at hbid
    obtain rfl : bid = 0 := by omega
    exact Or.inl ⟨rfl, rfl, h.sender.2⟩
  · obtain rfl := Option.some_inj.mp (h.second.symm.trans halgo)
    rw [h.receiver.1] at hbid
    obtain rfl | rfl : bid = 0 ∨ bid = 1 := by omega
    · exact Or.inr (Or.inl ⟨rfl, rfl, h.receiver.2.1⟩)
    · exact Or.inr (Or.inr ⟨rfl, rfl, h.receiver.2.2⟩)

theorem op_cases (h : TwoGpus algos a b) {op : Op} {tran : MscclTransfer}
    (htran : op.transfer algos = some tran) :
    (op = ⟨0, 0, 0⟩ ∧ op.tb algos = oneChunkBlock 1 (-1) .send [] ∧ tran = oneChunk .send 0) ∨
    (op = ⟨1, 0, 0⟩ ∧ op.tb algos = oneChunkBlock (-1) 0 .recv [] ∧ tran = oneChunk .recv 0) ∨
    (op = ⟨1, 1, 0⟩ ∧ op.tb algos = oneChunkBlock (-1) (-1) .localCopy [(0, 0)] ∧
      tran = oneChunk .localCopy 1) := by
  obtain ⟨gpu, bid, sid⟩ := op
  obtain ⟨algo, halgo, hbid, htb, hget⟩ := Op.transfer_eq_some.mp htran
  simp only at halgo hbid htb hget
  rw [htb]
  have hone {type : TransferType} {deps : List (Int × Int)} {sendpeer recvpeer : Int}
      (hblock : algo.mscclTBs bid = oneChunkBlock sendpeer recvpeer type deps) :
      sid = 0 ∧ tran = oneChunk type deps.length := by
    rw [hblock] at hget
    obtain ⟨hlt, hget⟩ := List.getElem?_eq_some_iff.mp hget
    obtain rfl : sid = 0 := Nat.lt_one_iff.mp hlt
    exact ⟨rfl, hget.symm⟩
  rcases h.block_cases halgo hbid with ⟨rfl, rfl, hblock⟩ | ⟨rfl, rfl, hblock⟩ | ⟨rfl, rfl, hblock⟩
  · obtain ⟨rfl, rfl⟩ := hone hblock
    exact Or.inl ⟨rfl, hblock, rfl⟩
  · obtain ⟨rfl, rfl⟩ := hone hblock
    exact Or.inr (Or.inl ⟨rfl, hblock, rfl⟩)
  · obtain ⟨rfl, rfl⟩ := hone hblock
    exact Or.inr (Or.inr ⟨rfl, hblock, rfl⟩)

theorem uses (h : TwoGpus algos a b) {side : Side} {c : ConnId} (huses : side.Uses algos c gpu bid algo) :
    bid = 0 ∧ side.counts (algo.mscclTBs bid) = [1] ∧
      (side = .sending ∧ gpu = 0 ∨ side = .receiving ∧ gpu = 1) := by
  obtain ⟨tran, hmem, hhas⟩ := huses.has
  rcases h.block_cases huses.gpu_algo huses.bid_lt with
    ⟨rfl, rfl, hblock⟩ | ⟨rfl, rfl, hblock⟩ | ⟨rfl, rfl, hblock⟩
  · rw [hblock] at hmem ⊢
    rw [List.mem_singleton.mp hmem] at hhas
    cases side with
    | sending => exact ⟨rfl, rfl, Or.inl ⟨rfl, rfl⟩⟩
    | receiving => cases hhas
  · rw [hblock] at hmem ⊢
    rw [List.mem_singleton.mp hmem] at hhas
    cases side with
    | sending => cases hhas
    | receiving => exact ⟨rfl, rfl, Or.inr ⟨rfl, rfl⟩⟩
  · rw [hblock] at hmem
    rw [List.mem_singleton.mp hmem] at hhas
    cases side <;> cases hhas

theorem paired (h : TwoGpus algos a b) : Paired algos fun _ => [1] := by
  constructor
  · intro side c gpu gpu' bid bid' algo algo' huses huses'
    obtain ⟨rfl, -, hside⟩ := h.uses huses
    obtain ⟨rfl, -, hside'⟩ := h.uses huses'
    rcases hside with ⟨rfl, rfl⟩ | ⟨rfl, rfl⟩ <;>
      rcases hside' with ⟨hs, rfl⟩ | ⟨hs, rfl⟩ <;> simp at hs ⊢
  · intro side c gpu bid algo huses
    exact (h.uses huses).2.1

theorem blocks (h : TwoGpus algos a b) (gpu : Nat) (algo : MscclAlgorithm)
    (halgo : algos gpu = some algo) : algo.nBlocks ≤ 127 := by
  rcases h.gpus gpu algo halgo with rfl | rfl
  · rw [← Option.some_inj.mp (h.first.symm.trans halgo), h.sender.1]
    decide
  · rw [← Option.some_inj.mp (h.second.symm.trans halgo), h.receiver.1]
    decide

theorem complete (h : TwoGpus algos a b) {s : Collective}
    (hdone : ((s.interp 0).tbs 0).localStep = 1 ∧ ((s.interp 1).tbs 0).localStep = 1 ∧
      ((s.interp 1).tbs 1).localStep = 1) : s.Complete algos := by
  intro gpu algo halgo bid hbid
  rcases h.block_cases halgo hbid with ⟨rfl, rfl, hblock⟩ | ⟨rfl, rfl, hblock⟩ | ⟨rfl, rfl, hblock⟩
  · rw [hblock]
    exact hdone.1
  · rw [hblock]
    exact hdone.2.1
  · rw [hblock]
    exact hdone.2.2

theorem plain (h : TwoGpus algos a b) (gpu : Nat) (algo : MscclAlgorithm)
    (halgo : algos gpu = some algo) : PlainAlgorithm sendAndReceive gpu algo := by
  have hsend : PlainSteps (xmlSteps sendAndReceive 0 0) := by decide +kernel
  have hreceive : PlainSteps (xmlSteps sendAndReceive 1 0) := by decide +kernel
  have hcopy : PlainSteps (xmlSteps sendAndReceive 1 1) := by decide +kernel
  intro bid hbid
  rcases h.block_cases halgo hbid with ⟨rfl, rfl, -⟩ | ⟨rfl, rfl, -⟩ | ⟨rfl, rfl, -⟩
  · exact hsend
  · exact hreceive
  · exact hcopy

theorem ordered (h : TwoGpus algos a b) : ConflictsOrdered oneNumber sendAndReceive algos := by
  have hdepends : ((xmlSteps sendAndReceive 1 1)[0]?.any fun x =>
      (xmlSteps sendAndReceive 1 0)[0]?.any fun y =>
        decide (x.dependBid = 0 ∧ y.s = x.dependStep)) = true := by
    decide +kernel
  obtain ⟨x, hx, hdepends⟩ := (Option.any_eq_true _ _).mp hdepends
  obtain ⟨y, hy, hdepends⟩ := (Option.any_eq_true _ _).mp hdepends
  obtain ⟨hbid, hs⟩ := of_decide_eq_true hdepends
  have hreceive : Op.step algos ⟨1, 0, 0⟩ = ⟨1, 0, 0⟩ := by
    rw [Op.step, Op.tb_eq h.second, h.receiver.2.1]
    rfl
  have hcopy : Op.step algos ⟨1, 1, 0⟩ = ⟨1, 1, 0⟩ := by
    rw [Op.step, Op.tb_eq h.second, h.receiver.2.2]
    rfl
  have hbefore : LocalBefore sendAndReceive (Op.step algos ⟨1, 0, 0⟩) (Op.step algos ⟨1, 1, 0⟩) := by
    have hdep := LocalBefore.dependence hx (Int.le_of_eq hbid.symm) (by rwa [hbid]) hs
    rw [hreceive, hcopy]
    rwa [hbid] at hdep
  intro op op' tran tran' hgpu hne htran htran' _
  rcases h.op_cases htran with ⟨rfl, -, -⟩ | ⟨rfl, -, -⟩ | ⟨rfl, -, -⟩ <;>
    rcases h.op_cases htran' with ⟨rfl, -, -⟩ | ⟨rfl, -, -⟩ | ⟨rfl, -, -⟩ <;>
    first
    | exact absurd rfl hne
    | exact absurd hgpu (by decide)
    | exact Or.inl (.single hbefore)
    | exact Or.inr (.single hbefore)

end TwoGpus

theorem exists_twoGpus (moves : List Move) (done : Collective → Bool)
    (heval : (match parseAlgoXml 2 (some (some sendAndReceive)) with
      | .error _ => false
      | .ok algos =>
          (algos 0).any fun a => (algos 1).any fun b =>
            decide (a.nBlocks = 1 ∧ a.mscclTBs 0 = oneChunkBlock 1 (-1) .send []) &&
            decide (b.nBlocks = 2 ∧ b.mscclTBs 0 = oneChunkBlock (-1) 0 .recv [] ∧
              b.mscclTBs 1 = oneChunkBlock (-1) (-1) .localCopy [(0, 0)]) &&
            (execGuarded (Collective.step oneNumber algos) anyEvent
              (Collective.initial algos numbered) moves).any done) = true) :
    ∃ algos a b s, parseAlgoXml 2 (some (some sendAndReceive)) = .ok algos ∧ TwoGpus algos a b ∧
      Run (Collective.step oneNumber algos) anyEvent (Collective.initial algos numbered) moves s ∧
      done s = true := by
  cases hparse : parseAlgoXml 2 (some (some sendAndReceive)) with
  | error e =>
      rw [hparse] at heval
      cases heval
  | ok algos =>
      rw [hparse] at heval
      obtain ⟨a, ha, heval⟩ := (Option.any_eq_true _ _).mp heval
      obtain ⟨b, hb, heval⟩ := (Option.any_eq_true _ _).mp heval
      rw [Bool.and_eq_true, Bool.and_eq_true, decide_eq_true_eq, decide_eq_true_eq] at heval
      obtain ⟨⟨hsender, hreceiver⟩, heval⟩ := heval
      obtain ⟨s, hexec, hdone⟩ := (Option.any_eq_true _ _).mp heval
      refine ⟨algos, a, b, s, rfl, ⟨fun gpu algo halgo => ?_, ha, hb, hsender, hreceiver⟩,
        run_of_execGuarded _ _ _ _ _ hexec, hdone⟩
      have hlt := lt_of_parseAlgoXml hparse halgo
      omega

theorem sendAndReceive_memory_eq :
    ∃ algos s, parseAlgoXml 2 (some (some sendAndReceive)) = .ok algos ∧
      Run (Collective.step oneNumber algos) anyEvent (Collective.initial algos numbered)
        earlyFragment s ∧ s.Complete algos ∧
      (∃ order, IsOrder oneNumber sendAndReceive algos order) ∧
      ∀ order, IsOrder oneNumber sendAndReceive algos order →
        (order.foldl (SeqState.exec oneNumber algos) (.initial numbered)).memory = s.memory := by
  obtain ⟨algos, a, b, s, hparse, hgpus, hrun, hdone⟩ := exists_twoGpus earlyFragment
    (fun s => decide (((s.interp 0).tbs 0).localStep = 1 ∧ ((s.interp 1).tbs 0).localStep = 1 ∧
      ((s.interp 1).tbs 1).localStep = 1)) (by decide +kernel)
  have hcomplete := hgpus.complete (of_decide_eq_true hdone)
  exact ⟨algos, s, hparse, hrun, hcomplete, memory_eq_of_complete hparse hgpus.plain hgpus.blocks
    hgpus.paired hgpus.ordered hrun hcomplete⟩

end CollectiveSim.Msccl
