import Mathlib
import CollectiveSim.Msccl.Bounds

/-!
# Index safety of a document

Which documents `ParseAlgoXml` reads without leaving an array. Only the rounds that it gets to
matter, since it returns at the first error.
-/

namespace CollectiveSim.Msccl

open Framework Framework.Traced

/-! ## The steps of a thread block -/

/-- The steps read so far. -/
def readSteps (stepNodes : List XmlNode) : List XmlStep :=
  stepNodes.filterMap fun stepNode => (readStep stepNode).toOption

theorem readSteps_snoc {before : List XmlNode} {stepNode : XmlNode} {x : XmlStep}
    (h : readStep stepNode = .ok x) : readSteps (before ++ [stepNode]) = readSteps before ++ [x] := by
  rw [readSteps, List.filterMap_append, readSteps]
  simp [h, Except.toOption]

/-- Every step of the thread block that the loop gets to fits. -/
def StepsFit (ctx : TbContext) (initial : TbParse) (stepNodes : List XmlNode) : Prop :=
  RoundsFit (fun st stepNode => do addStep ctx st (← readStep stepNode)) initial
    (fun before stepNode => ∀ x, readStep stepNode = .ok x → StepFits ctx (readSteps before) x)
    stepNodes

theorem all_touchSteps (ctx : TbContext) (sendpeer recvpeer channelId : Int)
    (stepNodes : List XmlNode) :
    (touchSteps ctx (.initial sendpeer recvpeer channelId) stepNodes).All Access.InBounds ↔
      StepsFit ctx (.initial sendpeer recvpeer channelId) stepNodes := by
  rw [touchSteps, all_foldlM_iff _ _
    (fun before st => Counted (readSteps before) st ∧
      transferCount (readSteps before) ≤ mscclMaxNumSteps)
    (fun before stepNode => ∀ x, readStep stepNode = .ok x → StepFits ctx (readSteps before) x)
    ⟨counted_initial sendpeer recvpeer channelId, Nat.zero_le _⟩]
  · simp only [result_bind, result_check, result_touchStep, StepsFit]
  · rintro before stepNode st st' ⟨hcounted, hle⟩ hfits hstep
    simp only [result_bind, result_check, result_touchStep, except_bind_ok] at hstep
    obtain ⟨x, hread, hstep⟩ := hstep
    rw [readSteps_snoc hread]
    exact ⟨hcounted.step hstep, transferCount_le hle (hfits x hread) hstep⟩
  · rintro before stepNode st ⟨hcounted, hle⟩
    rw [all_check_bind]
    exact forall₂_congr fun x _ => hcounted.all_touchStep hle

/-! ## The thread blocks of a GPU -/

/-- How many of the thread blocks on a channel have a peer to send to or to receive from. -/
def peerCount (prop : String) (channelId : Int) (tbs : List XmlNode) : Nat :=
  (tbs.filter fun tb => decide ((getPropInt tb "chan").toOption = some channelId) &&
    (getPropInt tb prop).toOption.any fun peer => decide (0 ≤ i16 peer)).length

/-- The attributes of a thread block that gets past the checks before its steps. -/
structure TbOpens (ngpus gpuId : Int) (before : List XmlNode) (tb : XmlNode)
    (bid recvpeer sendpeer channelId : Int) : Prop where
  id : getPropInt tb "id" = .ok bid
  recv : getPropInt tb "recv" = .ok recvpeer
  send : getPropInt tb "send" = .ok sendpeer
  chan : getPropInt tb "chan" = .ok channelId
  bid_range : 0 ≤ bid ∧ bid < mscclMaxNumThreadBlocks
  bid_new : before.find? (XmlNode.hasId bid.toNat) = none
  recvpeer_range : -1 ≤ recvpeer ∧ recvpeer < ngpus ∧ recvpeer ≠ gpuId
  sendpeer_range : -1 ≤ sendpeer ∧ sendpeer < ngpus ∧ sendpeer ≠ gpuId
  channel_range : 0 ≤ channelId ∧ channelId ≤ maxChannels

/-- What the steps of a thread block see of the thread blocks before it. -/
def tbContext (chunks : BufferChunks) (before : List XmlNode) (recvpeer sendpeer channelId : Int) :
    TbContext where
  sendpeer := sendpeer
  recvpeer := recvpeer
  nSendPeers := peerCount "send" channelId before
  nRecvPeers := peerCount "recv" channelId before
  chunks := chunks

/-- What a thread block behind these needs: a channel below `maxChannels`, steps that fit, and a free
slot for both of its peers once its steps are through, whether it has these peers or not. -/
def TbFits (ngpus gpuId : Int) (chunks : BufferChunks) (before : List XmlNode) (tb : XmlNode) :
    Prop :=
  ∀ bid recvpeer sendpeer channelId, TbOpens ngpus gpuId before tb bid recvpeer sendpeer channelId →
    let ctx := tbContext chunks before recvpeer sendpeer channelId
    let initial := TbParse.initial (i16 sendpeer) (i16 recvpeer) (i8 channelId)
    channelId ≠ maxChannels ∧ StepsFit ctx initial (tb.childElements "step") ∧
      ((∃ sTB, parseSteps ctx initial (tb.childElements "step") = .ok sTB) →
        ctx.nSendPeers < mscclMaxNumThreadBlocksPerChannel ∧
          ctx.nRecvPeers < mscclMaxNumThreadBlocksPerChannel)

/-- The channels have the peers of the thread blocks so far. -/
def PeersCounted (before : List XmlNode) (st : GpuState) : Prop :=
  ∀ c : Nat, (st.mscclChannels c).sendPeers.length = peerCount "send" c before ∧
    (st.mscclChannels c).recvPeers.length = peerCount "recv" c before

theorem peerCount_snoc {prop : String} {c channelId peer : Int} {before : List XmlNode}
    {tb : XmlNode} (hchan : getPropInt tb "chan" = .ok channelId)
    (hpeer : getPropInt tb prop = .ok peer) :
    peerCount prop c (before ++ [tb]) =
      peerCount prop c before + if channelId = c ∧ 0 ≤ i16 peer then 1 else 0 := by
  rw [peerCount, peerCount, List.filter_append, List.length_append]
  by_cases h : channelId = c ∧ 0 ≤ i16 peer
  · simp [hchan, hpeer, h, Except.toOption]
  · simp [hchan, hpeer, h, Except.toOption]

theorem PeersCounted.step {ngpus gpuId : Int} {chunks : BufferChunks} {before : List XmlNode}
    {st st' : GpuState} {tb : XmlNode} (h : PeersCounted before st)
    (hstep : parseTb ngpus gpuId chunks st tb = .ok st') : PeersCounted (before ++ [tb]) st' := by
  simp only [parseTb, except_bind_ok, reject_ok] at hstep
  obtain ⟨bid, -, recvpeer, hrecv, sendpeer, hsend, channelId, hchan, -, -, -, -, -, -, -, -, -, -, -,
    -, -, hrange, sTB, -, hst⟩ := hstep
  cases hst
  intro c
  obtain ⟨hs, hr⟩ := h c
  rw [peerCount_snoc hchan hsend, peerCount_snoc hchan hrecv, ← hs, ← hr]
  by_cases hc : channelId.toNat = c
  · have hcast : channelId = c := by omega
    subst hc
    simp only [Function.update_self, List.length_append]
    constructor
    · by_cases hpeer : 0 ≤ i16 sendpeer <;> simp [← hcast, hpeer]
    · by_cases hpeer : 0 ≤ i16 recvpeer <;> simp [← hcast, hpeer]
  · have hne : ¬ channelId = c := by omega
    simp only [Function.update_of_ne (Ne.symm hc), hne, false_and, if_false, Nat.add_zero, and_self]

theorem all_countAccesses {nSendPeers nRecvPeers : Nat} :
    (∀ a ∈ countAccesses nSendPeers nRecvPeers, a.InBounds) ↔
      nSendPeers < mscclMaxNumThreadBlocksPerChannel ∧
        nRecvPeers < mscclMaxNumThreadBlocksPerChannel := by
  simp only [countAccesses, List.mem_flatMap, List.mem_range]
  constructor
  · intro h
    have hsend := h ⟨.sendPeerInfo, nSendPeers⟩ ⟨0, by decide, by simp⟩
    have hrecv := h ⟨.recvPeerInfo, nRecvPeers⟩ ⟨0, by decide, by simp⟩
    exact ⟨inBounds_nat.mp hsend, inBounds_nat.mp hrecv⟩
  · rintro ⟨hsend, hrecv⟩ a ⟨c, hc, ha⟩
    simp only [List.mem_cons, List.not_mem_nil, or_false] at ha
    rcases ha with rfl | rfl | rfl | rfl
    · exact inBounds_nat.mpr hsend
    · exact inBounds_nat.mpr hc
    · exact inBounds_nat.mpr hrecv
    · exact inBounds_nat.mpr hc

theorem all_touchTb {ngpus gpuId : Int} {chunks : BufferChunks} {before : List XmlNode}
    {st : GpuState} {tb : XmlNode} (hbids : TbsParsed ngpus before st)
    (hpeers : PeersCounted before st) :
    (touchTb ngpus gpuId chunks st tb).All Access.InBounds ↔
      TbFits ngpus gpuId chunks before tb := by
  simp only [touchTb, touch, all_bind, all_check, all_note, all_notes, all_when, all_pure,
    result_check, result_note, result_notes, result_when, result_touchSteps, reject_ok, true_and,
    and_true, forall_const, ite_self]
  have hchannels {channelId : Int} (hchannel : 0 ≤ channelId) :
      (st.mscclChannels channelId.toNat).sendPeers.length = peerCount "send" channelId before ∧
        (st.mscclChannels channelId.toNat).recvPeers.length = peerCount "recv" channelId before := by
    have hcounts := hpeers channelId.toNat
    rwa [Int.toNat_of_nonneg hchannel] at hcounts
  have hnew (bid : Int) : bid.toNat ∉ st.bids ↔ before.find? (XmlNode.hasId bid.toNat) = none := by
    rw [hbids.mem_bids, Option.not_isSome_iff_eq_none]
  constructor
  · rintro hall bid recvpeer sendpeer channelId ⟨hid, hrecv, hsend, hchan, hbid, hbidnew, hrecvRange,
      hsendRange, hchannel⟩
    obtain ⟨hnsend, hnrecv⟩ := hchannels hchannel.1
    obtain ⟨-, hall⟩ := hall bid hid recvpeer hrecv sendpeer hsend channelId hchan (by omega)
      (by omega) ((hnew bid).mpr hbidnew) (by omega)
    obtain ⟨hindex, hsteps, hall⟩ := hall (by omega) (by omega) (by omega)
    rw [hnsend, hnrecv] at hsteps hall
    refine ⟨fun hmax => ?_, (all_touchSteps ..).mp hsteps, fun hread => ?_⟩
    · rw [hmax] at hindex
      exact absurd hindex (by decide)
    · obtain ⟨sTB, hsTB⟩ := hread
      exact all_countAccesses.mp (hall sTB hsTB).1
  · intro hfits bid hid recvpeer hrecv sendpeer hsend channelId hchan hlo hhi hbidnew hself
    refine ⟨?_, fun hneg hranks hchannel => ?_⟩
    · have hle : mscclMaxNumThreadBlocks ≤ ParseArray.mscclTBs.size := by decide
      rw [inBounds_iff]
      omega
    · obtain ⟨hmax, hsteps, hcounts⟩ := hfits bid recvpeer sendpeer channelId ⟨hid, hrecv, hsend,
        hchan, by omega, (hnew bid).mp hbidnew, by omega, by omega, by omega⟩
      obtain ⟨hnsend, hnrecv⟩ := hchannels (show 0 ≤ channelId by omega)
      rw [hnsend, hnrecv]
      refine ⟨?_, (all_touchSteps ..).mpr hsteps, fun sTB hsTB => ?_⟩
      · simp only [inBounds_iff, ParseArray.size]
        omega
      · have hfree := hcounts ⟨sTB, hsTB⟩
        exact ⟨all_countAccesses.mpr hfree, fun _ => inBounds_nat.mpr hfree.1,
          fun _ => inBounds_nat.mpr hfree.2⟩

/-! ## The document -/

/-- The thread blocks of the GPU that the loop gets to fit. -/
def GpuFits (nRanks : Nat) (gpu : XmlNode) : Prop :=
  ∀ gpuId iChunks oChunks sChunks, getPropInt gpu "id" = .ok gpuId →
    getPropInt gpu "i_chunks" = .ok iChunks → getPropInt gpu "o_chunks" = .ok oChunks →
    getPropInt gpu "s_chunks" = .ok sChunks → 0 ≤ gpuId → gpuId < nRanks →
    RoundsFit (parseTb nRanks gpuId ⟨iChunks, oChunks, sChunks⟩) .initial
      (TbFits nRanks gpuId ⟨iChunks, oChunks, sChunks⟩) (gpu.childElements "tb")

theorem all_touchGpu {nRanks : Nat} {nChannels nChunksPerLoop : Int} {collType : CollectiveType}
    {gpu : XmlNode} :
    (touchGpu nRanks nRanks nChannels nChunksPerLoop collType gpu).All Access.InBounds ↔
      GpuFits nRanks gpu := by
  have hloop (gpuId : Int) (chunks : BufferChunks) :
      ((gpu.childElements "tb").foldlM (touchTb nRanks gpuId chunks) .initial).All Access.InBounds ↔
        RoundsFit (parseTb nRanks gpuId chunks) .initial (TbFits nRanks gpuId chunks)
          (gpu.childElements "tb") := by
    rw [all_foldlM_iff _ _ (fun before st => TbsParsed nRanks before st ∧ PeersCounted before st)
      (TbFits nRanks gpuId chunks)]
    · simp only [result_touchTb]
    · exact ⟨⟨by simp [GpuState.initial], by simp [GpuState.initial], by simp⟩, fun _ => ⟨rfl, rfl⟩⟩
    · rintro before tb st st' ⟨hbids, hpeers⟩ - hstep
      rw [result_touchTb] at hstep
      exact ⟨hbids.step hstep, hpeers.step hstep⟩
    · rintro before tb st ⟨hbids, hpeers⟩
      exact all_touchTb hbids hpeers
  simp only [touchGpu, all_bind, all_check, all_pure, result_check, reject_ok, true_and, and_true,
    forall_const, implies_true, hloop]
  constructor
  · intro h gpuId iChunks oChunks sChunks hid hi ho hs hlo hhi
    exact h gpuId hid iChunks hi oChunks ho sChunks hs (by omega)
  · intro h gpuId hid iChunks hi oChunks ho sChunks hs hrange
    exact h gpuId iChunks oChunks sChunks hid hi ho hs (by omega) (by omega)

/-- The GPUs that the loop gets to fit. A document that cannot be read, or whose root element is
rejected, has none. -/
def DocumentFits (nRanks : Nat) (document : Option (Option XmlNode)) : Prop :=
  ∀ root name nChannels nChunksPerLoop coll collType, document = some (some root) →
    root.isElement "algo" = true → getPropStr root "name" = .ok name →
    getPropInt root "ngpus" = .ok (nRanks : Int) → getPropInt root "nchannels" = .ok nChannels →
    getPropInt root "nchunksperloop" = .ok nChunksPerLoop → getPropStr root "coll" = .ok coll →
    collectiveType coll = .ok collType →
    RoundsFit (fun algos gpu => do
        let (gpuId, algo) ← parseGpu nRanks nRanks nChannels nChunksPerLoop collType gpu
        return Function.update algos gpuId (some algo)) (fun _ => none)
      (fun _ gpu => GpuFits nRanks gpu) (root.childElements "gpu")

/-- The parser stays inside its arrays if and only if the rounds of its loops fit. -/
theorem indexSafe_iff (nRanks : Nat) (document : Option (Option XmlNode)) :
    IndexSafe nRanks document ↔ DocumentFits nRanks document := by
  have hloop (nChannels nChunksPerLoop : Int) (collType : CollectiveType) (gpus : List XmlNode) :
      (gpus.foldlM (fun algos gpu => do
          let (gpuId, algo) ← touchGpu nRanks nRanks nChannels nChunksPerLoop collType gpu
          return Function.update algos gpuId (some algo)) fun _ => none : ParseTrace _).All
          Access.InBounds ↔
        RoundsFit (fun algos gpu => do
          let (gpuId, algo) ← parseGpu nRanks nRanks nChannels nChunksPerLoop collType gpu
          return Function.update algos gpuId (some algo)) (fun _ => none)
          (fun _ gpu => GpuFits nRanks gpu) gpus := by
    rw [all_foldlM_iff _ _ (fun _ _ => True) (fun _ gpu => GpuFits nRanks gpu) trivial]
    · simp only [result_bind, result_touchGpu, result_pure]
      rfl
    · intros
      trivial
    · intro before gpu algos _
      rw [all_bind, all_touchGpu]
      simp
  have hunread (e : AlgoParseError) :
      (check (.error e) : ParseTrace (Nat → Option MscclAlgorithm)).All Access.InBounds :=
    (all_check _).mpr trivial
  match document with
  | none => exact iff_of_true (hunread _) fun _ _ _ _ _ _ h => by cases h
  | some none => exact iff_of_true (hunread _) fun _ _ _ _ _ _ h => by cases h
  | some (some root) =>
      simp only [IndexSafe, touchAlgoXml, all_bind, all_check, result_check, failIf_ok, true_and,
        forall_const, Bool.not_eq_false]
      constructor
      · intro h root' name nChannels nChunks coll collType heq hroot hname hngpus hchan hchunk hcoll
          htype
        cases heq
        exact (hloop ..).mp (h hroot name hname nRanks hngpus (by simp) nChannels hchan nChunks hchunk
          coll hcoll collType htype)
      · intro h hroot name hname ngpus hngpus heq nChannels hchan nChunks hchunk coll hcoll collType
          htype
        rw [not_not] at heq
        subst heq
        exact (hloop ..).mpr (h root name nChannels nChunks coll collType rfl hroot hname hngpus hchan
          hchunk hcoll htype)

/-- One send, on a channel that the check lets through although there is no entry for it. -/
def lastChannel : XmlNode :=
  .element "algo" [("name", "send"), ("ngpus", "2"), ("nchannels", "33"), ("nchunksperloop", "1"),
    ("coll", "custom")]
    [.element "gpu" [("id", "0"), ("i_chunks", "1"), ("o_chunks", "1"), ("s_chunks", "0")]
      [.element "tb" [("id", "0"), ("send", "1"), ("recv", "-1"), ("chan", "32")]
        [.element "step" [("s", "0"), ("type", "s"), ("srcbuf", "i"), ("srcoff", "0"),
          ("dstbuf", "o"), ("dstoff", "0"), ("cnt", "1"), ("depid", "-1"), ("deps", "-1"),
          ("hasdep", "0")] []]]]

theorem not_indexSafe : ¬ ∀ nRanks document, IndexSafe nRanks document := by
  intro h
  have hmem : ⟨.mscclChannels, 32⟩ ∈ (touchAlgoXml 2 (some (some lastChannel))).trace := by
    decide +kernel
  exact absurd (h 2 _ _ hmem) (by decide)

end CollectiveSim.Msccl
