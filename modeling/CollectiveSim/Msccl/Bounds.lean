import Mathlib
import CollectiveSim.Msccl.Access
import CollectiveSim.Msccl.Document

/-!
# Index bounds of the parser

When the indices of `ParseAlgoXml` stay inside its arrays. Most of them are running counters that no
check bounds; a document decides them by how many elements of a kind it has.
-/

namespace CollectiveSim.Msccl

open Framework Framework.Traced

/-! ## Counting the steps of a thread block -/

/-- The steps that name a dependence. -/
def dependenceCount (xs : List XmlStep) : Nat := (xs.filter fun x => decide (0 ≤ x.dependBid)).length

def reductionCount (xs : List XmlStep) : Nat := (xs.filter fun x => decide (x.type = "re")).length

/-- The last step that is a transfer. -/
def lastTransfer (xs : List XmlStep) : Option XmlStep :=
  (xs.filter fun x => decide (x.type ≠ "nop")).getLast?

/-- A reduction after these steps may still be continued: the last transfer is one, no step depends
on it, and it is not the one at which chains end. -/
def openReduction (xs : List XmlStep) : Option XmlStep :=
  (lastTransfer xs).filter fun prev =>
    prev.type = "re" ∧ prev.hasDependence = 0 ∧ reductionCount xs ≠ mscclMaxReduceFusion

/-- The step continues the reduction before it and shares its transfer. -/
def continuesLast (before : List XmlStep) (x : XmlStep) : Bool :=
  x.type = "re" && x.dependBid = -1 && (openReduction before).any fun prev =>
    prev.srcbuffer = x.srcbuffer ∧ prev.dstbuffer = x.dstbuffer ∧ i16 prev.dstoffset = x.dstoffset

/-- The transfers of steps given from the last to the first. -/
def transferCountRev : List XmlStep → Nat
  | [] => 0
  | x :: before =>
      transferCountRev before +
        if x.type ≠ "nop" ∧ ¬ continuesLast before.reverse x then 1 else 0

/-- The transfers that the steps fold into. -/
def transferCount (xs : List XmlStep) : Nat := transferCountRev xs.reverse

/-- The dependences since the last transfer that is no continuation, the last step first. -/
def openDependencesRev : List XmlStep → Nat
  | [] => 0
  | x :: before =>
      if x.type = "nop" ∨ continuesLast before.reverse x then
        openDependencesRev before + if 0 ≤ x.dependBid then 1 else 0
      else 0

/-- The dependences that wait for a transfer. -/
def openDependences (xs : List XmlStep) : Nat := openDependencesRev xs.reverse

section

variable (xs : List XmlStep) (x : XmlStep)

theorem dependenceCount_snoc :
    dependenceCount (xs ++ [x]) = dependenceCount xs + if 0 ≤ x.dependBid then 1 else 0 := by
  rw [dependenceCount, dependenceCount, List.filter_append, List.length_append]
  by_cases h : 0 ≤ x.dependBid <;> simp [h]

theorem reductionCount_snoc :
    reductionCount (xs ++ [x]) = reductionCount xs + if x.type = "re" then 1 else 0 := by
  rw [reductionCount, reductionCount, List.filter_append, List.length_append]
  by_cases h : x.type = "re" <;> simp [h]

theorem lastTransfer_snoc :
    lastTransfer (xs ++ [x]) = if x.type = "nop" then lastTransfer xs else some x := by
  rw [lastTransfer, lastTransfer, List.filter_append]
  by_cases h : x.type = "nop" <;> simp [h]

theorem transferCount_snoc :
    transferCount (xs ++ [x]) =
      transferCount xs + if x.type ≠ "nop" ∧ ¬ continuesLast xs x then 1 else 0 := by
  rw [transferCount, transferCount, List.reverse_append, List.reverse_singleton,
    List.singleton_append, transferCountRev, List.reverse_reverse]

theorem openDependences_snoc :
    openDependences (xs ++ [x]) =
      if x.type = "nop" ∨ continuesLast xs x then
        openDependences xs + if 0 ≤ x.dependBid then 1 else 0
      else 0 := by
  rw [openDependences, openDependences, List.reverse_append, List.reverse_singleton,
    List.singleton_append, openDependencesRev, List.reverse_reverse]

end

/-! ## What one step changes -/

/-- The type that `ParseAlgoXml` reads as this transfer. -/
def stepName : Option TransferType → String
  | some .send => "s"
  | some .recv => "r"
  | some .recvCopySend => "rcs"
  | some .recvReduceSend => "rrs"
  | some .recvReduceCopy => "rrc"
  | some .recvReduceCopySend => "rrcs"
  | some .localCopy => "cpy"
  | some .reduce => "re"
  | some .resAdd => "ra"
  | none => "nop"

theorem ite_eq_ok {c : Prop} [Decidable c] {a b : StepKind} {rest : Parse StepKind}
    (h : (if c then .ok a else rest) = .ok b) : c ∧ a = b ∨ rest = .ok b := by
  by_cases hc : c
  · rw [if_pos hc] at h
    exact .inl ⟨hc, Except.ok.inj h⟩
  · rw [if_neg hc] at h
    exact .inr h

theorem eq_stepName {type : String} {kind : StepKind} (h : stepKind type = .ok kind) :
    type = stepName kind.transferType := by
  rw [stepKind] at h
  iterate 10
    obtain ⟨htype, rfl⟩ | h := ite_eq_ok h
    · exact htype
  cases h

theorem stepKind_stepName (type : Option TransferType) :
    (stepKind (stepName type)).map StepKind.transferType = .ok type := by
  cases type with
  | none => rfl
  | some type => cases type <;> rfl

theorem stepName_inj : Function.Injective stepName := by
  intro type type' h
  have hkind := stepKind_stepName type
  rw [h, stepKind_stepName] at hkind
  exact (Except.ok.inj hkind).symm

theorem stepKind_eq_reduce {type : String} {kind : StepKind} (h : stepKind type = .ok kind) :
    kind.transferType = some .reduce ↔ type = "re" := by
  rw [eq_stepName h]
  exact stepName_inj.eq_iff.symm

theorem stepKind_eq_none {type : String} {kind : StepKind} (h : stepKind type = .ok kind) :
    kind.transferType = none ↔ type = "nop" := by
  rw [eq_stepName h]
  exact stepName_inj.eq_iff.symm

theorem mscclGetBufferType_inj {s s' : String} {b : BufferType}
    (h : mscclGetBufferType s = .ok b) (h' : mscclGetBufferType s' = .ok b) : s = s' := by
  unfold mscclGetBufferType at h h'
  split_ifs at h <;> cases h <;> split_ifs at h' <;> cases h' <;> simp_all

theorem addTransfer_ok {st st' : TbParse} {x : XmlStep} {type : TransferType}
    {srcbuffer dstbuffer : BufferType} {continuation : Bool}
    (h : st.addTransfer x type srcbuffer dstbuffer continuation = .ok st') :
    st'.tb.dependentBid = st.tb.dependentBid ∧
      st'.oldDependencePointer =
        (if continuation then st.oldDependencePointer else st.tb.dependentBid.length) ∧
      st'.tb.transfers.length =
        (if continuation then st.tb.transfers.length - 1 else st.tb.transfers.length) + 1 ∧
      st'.tb.reductionSrcOffsets.length =
        st.tb.reductionSrcOffsets.length + (if type = .reduce then 1 else 0) ∧
      (type ≠ .reduce → st'.oldReductionDstBuffer = none) ∧
      (type = .reduce →
        if x.hasDependence ≠ 0 ∨ st.tb.reductionSrcOffsets.length + 1 = mscclMaxReduceFusion then
          st'.oldReductionDstBuffer = none
        else st'.oldReductionDstBuffer = some dstbuffer ∧
          st'.oldReductionDstOffset = i16 x.dstoffset ∧
          st'.oldReductionSrcBuffer = some srcbuffer) := by
  simp only [TbParse.addTransfer, except_bind_ok] at h
  obtain ⟨_, -, _, -, h⟩ := h
  by_cases hreduce : type = .reduce
  · rw [if_neg (not_not.mpr hreduce)] at h
    by_cases hend : x.hasDependence ≠ 0 ∨
        st.tb.reductionSrcOffsets.length + 1 = mscclMaxReduceFusion
    · cases continuation <;> simp [hend] at h <;> cases h <;> simp [hreduce, hend]
    · cases continuation <;> simp [hend] at h <;> cases h <;> simp [hreduce, hend]
  · rw [if_pos hreduce] at h
    cases h
    cases continuation <;> simp [hreduce]

@[simp] theorem addDependence_length (st : TbParse) (x : XmlStep) :
    (st.addDependence x).tb.dependentBid.length =
      st.tb.dependentBid.length + if 0 ≤ x.dependBid then 1 else 0 := by
  by_cases h : 0 ≤ x.dependBid <;> simp [TbParse.addDependence, h]

theorem addDependence_keeps (st : TbParse) (x : XmlStep) :
    (st.addDependence x).oldDependencePointer = st.oldDependencePointer ∧
      (st.addDependence x).tb.transfers = st.tb.transfers ∧
      (st.addDependence x).tb.reductionSrcOffsets = st.tb.reductionSrcOffsets ∧
      (st.addDependence x).oldReductionDstBuffer = st.oldReductionDstBuffer ∧
      (st.addDependence x).oldReductionDstOffset = st.oldReductionDstOffset ∧
      (st.addDependence x).oldReductionSrcBuffer = st.oldReductionSrcBuffer := by
  rw [TbParse.addDependence]
  split <;> exact ⟨rfl, rfl, rfl, rfl, rfl, rfl⟩

@[simp] theorem startChain_tb (st : TbParse) (type : Option TransferType) (continuation : Bool) :
    (st.startChain type continuation).tb = st.tb := by
  rw [TbParse.startChain]
  split <;> rfl

@[simp] theorem startChain_oldDependencePointer (st : TbParse) (type : Option TransferType)
    (continuation : Bool) :
    (st.startChain type continuation).oldDependencePointer = st.oldDependencePointer := by
  rw [TbParse.startChain]
  split <;> rfl

/-- The state agrees with the counts of the steps that led to it. -/
structure Counted (before : List XmlStep) (st : TbParse) : Prop where
  dependences : st.tb.dependentBid.length = dependenceCount before
  reductions : st.tb.reductionSrcOffsets.length = reductionCount before
  transfers : st.tb.transfers.length = transferCount before
  pointer : st.oldDependencePointer + openDependences before = st.tb.dependentBid.length
  closed : openReduction before = none → st.oldReductionDstBuffer = none
  opened : ∀ prev, openReduction before = some prev → 0 < st.tb.transfers.length ∧
    ∃ srcbuffer dstbuffer, mscclGetBufferType prev.srcbuffer = .ok srcbuffer ∧
      mscclGetBufferType prev.dstbuffer = .ok dstbuffer ∧
      st.oldReductionSrcBuffer = some srcbuffer ∧ st.oldReductionDstBuffer = some dstbuffer ∧
      st.oldReductionDstOffset = i16 prev.dstoffset

theorem counted_initial (sendpeer recvpeer channelId : Int) :
    Counted [] (.initial sendpeer recvpeer channelId) where
  dependences := rfl
  reductions := rfl
  transfers := rfl
  pointer := rfl
  closed := fun _ => rfl
  opened := fun _ h => by cases h

theorem continuesLast_dependBid {before : List XmlStep} {x : XmlStep}
    (h : continuesLast before x = true) : ¬ 0 ≤ x.dependBid := by
  simp only [continuesLast, Bool.and_eq_true, decide_eq_true_eq] at h
  omega

section

variable {ctx : TbContext} {st st' : TbParse} {before : List XmlStep} {x : XmlStep}
  {kind : StepKind} {srcbuffer dstbuffer : BufferType}

theorem Counted.continues_eq (h : Counted before st) (hkind : stepKind x.type = .ok kind)
    (hsrc : mscclGetBufferType x.srcbuffer = .ok srcbuffer)
    (hdst : mscclGetBufferType x.dstbuffer = .ok dstbuffer) :
    (decide (kind.transferType = some .reduce) &&
      (st.addDependence x).continuesReduction x srcbuffer dstbuffer) = continuesLast before x := by
  obtain ⟨-, -, -, hbuf, hoff, hsrcold⟩ := addDependence_keeps st x
  have hre : decide (kind.transferType = some .reduce) = decide (x.type = "re") :=
    decide_eq_decide.mpr (stepKind_eq_reduce hkind)
  rw [TbParse.continuesReduction, hbuf, hoff, hsrcold, continuesLast, hre]
  cases hopen : openReduction before with
  | none => simp [h.closed hopen]
  | some prev =>
      obtain ⟨-, src, dst, hs, hd, hssome, hdsome, hoffset⟩ := h.opened prev hopen
      have hsrciff : src = srcbuffer ↔ prev.srcbuffer = x.srcbuffer := by
        constructor
        · rintro rfl
          exact mscclGetBufferType_inj hs hsrc
        · intro heq
          rw [heq, hsrc] at hs
          exact (Except.ok.inj hs).symm
      have hdstiff : dst = dstbuffer ↔ prev.dstbuffer = x.dstbuffer := by
        constructor
        · rintro rfl
          exact mscclGetBufferType_inj hd hdst
        · intro heq
          rw [heq, hdst] at hd
          exact (Except.ok.inj hd).symm
      simp only [hssome, hdsome, hoffset, Option.some_inj, hsrciff, hdstiff, Option.any_some]
      rw [Bool.eq_iff_iff]
      simp only [Bool.and_eq_true, decide_eq_true_eq]
      tauto

theorem Counted.transferCount_pos (h : Counted before st)
    (hcont : continuesLast before x = true) : 0 < transferCount before := by
  rw [continuesLast, Bool.and_eq_true, Option.any_eq_true] at hcont
  obtain ⟨-, prev, hprev, -⟩ := hcont
  rw [← h.transfers]
  exact (h.opened prev hprev).1

theorem addStep_ok (h : addStep ctx st x = .ok st') :
    0 ≤ x.s ∧ x.s < mscclMaxNumSteps ∧ ∃ kind srcbuffer dstbuffer, stepKind x.type = .ok kind ∧
      mscclGetBufferType x.srcbuffer = .ok srcbuffer ∧
      mscclGetBufferType x.dstbuffer = .ok dstbuffer ∧
      match kind.transferType with
      | none => st' = st.addDependence x
      | some type =>
          let continuation := decide (kind.transferType = some .reduce) &&
            (st.addDependence x).continuesReduction x srcbuffer dstbuffer
          ((st.addDependence x).startChain (some type) continuation).addTransfer x type srcbuffer
            dstbuffer continuation = .ok st' := by
  simp only [addStep, except_bind_ok, reject_ok] at h
  obtain ⟨_, hhi, _, hlo, kind, hkind, srcbuffer, hsrc, dstbuffer, hdst, h⟩ := h
  refine ⟨by omega, by omega, kind, srcbuffer, dstbuffer, hkind, hsrc, hdst, ?_⟩
  cases htype : kind.transferType with
  | none =>
      rw [htype] at h
      cases h
      rfl
  | some type =>
      rw [htype] at h
      simp only [except_bind_ok] at h
      obtain ⟨_, -, _, -, _, -, _, -, _, -, _, -, _, -, h⟩ := h
      exact h

theorem Counted.nop (h : Counted before st) (htypex : x.type = "nop") :
    Counted (before ++ [x]) (st.addDependence x) := by
  obtain ⟨hpointer, htrans, hreds, hbuf, hoff, hsrcold⟩ := addDependence_keeps st x
  have hopen : openReduction (before ++ [x]) = openReduction before := by
    rw [openReduction, openReduction, lastTransfer_snoc, reductionCount_snoc, if_pos htypex,
      if_neg (by rw [htypex]; decide), Nat.add_zero]
  constructor
  · rw [addDependence_length, dependenceCount_snoc, h.dependences]
  · rw [hreds, reductionCount_snoc, if_neg (by rw [htypex]; decide), h.reductions, Nat.add_zero]
  · rw [htrans, transferCount_snoc, if_neg (fun hne => hne.1 htypex), h.transfers, Nat.add_zero]
  · rw [hpointer, addDependence_length, openDependences_snoc, if_pos (.inl htypex), ← h.pointer]
    omega
  · rw [hopen, hbuf]
    exact h.closed
  · rw [hopen, hbuf, hoff, hsrcold, htrans]
    exact h.opened

theorem Counted.step (h : Counted before st) (hstep : addStep ctx st x = .ok st') :
    Counted (before ++ [x]) st' := by
  obtain ⟨-, -, kind, srcbuffer, dstbuffer, hkind, hsrc, hdst, hrest⟩ := addStep_ok hstep
  obtain ⟨hpointer, htrans, hreds, hbuf, hoff, hsrcold⟩ := addDependence_keeps st x
  have hcont := h.continues_eq hkind hsrc hdst
  have hnop := stepKind_eq_none hkind
  have hre := stepKind_eq_reduce hkind
  cases htype : kind.transferType with
  | none =>
      rw [htype] at hrest
      subst hrest
      exact h.nop (hnop.mp htype)
  | some type =>
      rw [htype] at hrest hcont hre
      have htypex : x.type ≠ "nop" := fun hnopx => by
        rw [hnop.mpr hnopx] at htype
        cases htype
      dsimp only at hrest
      rw [hcont] at hrest
      obtain ⟨hd, hp, ht, hr, hother, hreduce⟩ := addTransfer_ok hrest
      rw [startChain_tb] at hd hp ht hr hreduce
      rw [Option.some_inj] at hre
      have hopen : openReduction (before ++ [x]) = (some x).filter fun prev =>
          prev.type = "re" ∧ prev.hasDependence = 0 ∧
            reductionCount (before ++ [x]) ≠ mscclMaxReduceFusion := by
        rw [openReduction, lastTransfer_snoc, if_neg htypex]
      constructor
      · rw [hd, addDependence_length, dependenceCount_snoc, h.dependences]
      · rw [hr, hreds, reductionCount_snoc, h.reductions]
        simp only [hre]
      · rw [ht, htrans, transferCount_snoc, h.transfers]
        cases hc : continuesLast before x with
        | false => simp [htypex]
        | true =>
            have hpos := h.transferCount_pos hc
            simp
            omega
      · rw [hp, hd, startChain_oldDependencePointer, hpointer, addDependence_length,
          openDependences_snoc]
        cases hc : continuesLast before x with
        | false => simp [htypex]
        | true =>
            have hneg := continuesLast_dependBid hc
            simp only [if_true, or_true, if_neg hneg, Nat.add_zero]
            exact h.pointer
      · intro hnone
        by_cases htre : type = .reduce
        · have hif := hreduce htre
          rwa [if_pos] at hif
          by_contra hnot
          rw [hopen, Option.filter_some, if_pos] at hnone
          · cases hnone
          · rw [not_or, not_not, hreds, h.reductions] at hnot
            simp [hre.mp htre, hnot.1, reductionCount_snoc, hnot.2]
        · exact hother htre
      · intro prev hprev
        rw [hopen, Option.filter_some] at hprev
        split at hprev
        · rename_i hcond
          cases hprev
          rw [decide_eq_true_iff] at hcond
          obtain ⟨htypere, hdep, hcount⟩ := hcond
          have hif := hreduce (hre.mpr htypere)
          rw [if_neg] at hif
          · exact ⟨by omega, srcbuffer, dstbuffer, hsrc, hdst, hif.2.2, hif.1, hif.2.1⟩
          · rw [not_or, not_not, hreds, h.reductions]
            rw [reductionCount_snoc, if_pos htypere] at hcount
            exact ⟨hdep, hcount⟩
        · cases hprev

end

/-! ## The steps that fit -/

/-- The peer exists and has a free slot. -/
def PeerFree (peer : Int) (nPeers : Nat) : Prop :=
  0 ≤ peer ∧ nPeers < mscclMaxNumThreadBlocksPerChannel

/-- The count of a transfer of this kind is counted for a peer. -/
def StepKind.CountsPeer (kind : StepKind) (ctx : TbContext) : Prop :=
  kind.hasSend = true ∧ PeerFree ctx.sendpeer ctx.nSendPeers ∨
    kind.hasSend = false ∧ kind.hasRecv = true ∧ PeerFree ctx.recvpeer ctx.nRecvPeers

/-- What a transfer needs: a free entry of the table unless it continues a reduction, a count of its
own where counts are counted, and for a reduction that passes its checks room for one more offset. -/
structure TransferFits (ctx : TbContext) (before : List XmlStep) (x : XmlStep) (kind : StepKind)
    (srcbuffer dstbuffer : BufferType) : Prop where
  slot : ¬ continuesLast before x → transferCount before < mscclMaxNumSteps
  count : kind.CountsPeer ctx → x.count ≠ 0
  reduction : x.type = "re" → 0 ≤ x.count → x.count < mscclMaxCount →
    mscclCheckBufferBounds srcbuffer (i16 x.srcoffset) ctx.chunks = .ok () →
    mscclCheckBufferBounds dstbuffer (i16 x.dstoffset) ctx.chunks = .ok () →
    (¬ continuesLast before x → 0 < openDependences before → 0 ≤ x.dependBid) →
    reductionCount before < mscclMaxNumSteps

/-- What a step behind these steps needs. The number of the step itself plays no part: the parser
compares it with the size of the tables but uses it as no index. -/
def StepFits (ctx : TbContext) (before : List XmlStep) (x : XmlStep) : Prop :=
  0 ≤ x.s → x.s < mscclMaxNumSteps → ∀ kind, stepKind x.type = .ok kind →
    (0 ≤ x.dependBid → dependenceCount before < mscclMaxNumSteps) ∧
      ∀ srcbuffer dstbuffer, mscclGetBufferType x.srcbuffer = .ok srcbuffer →
        mscclGetBufferType x.dstbuffer = .ok dstbuffer → kind.transferType ≠ none →
          TransferFits ctx before x kind srcbuffer dstbuffer

theorem inBounds_iff {array : ParseArray} {index : Int} :
    Access.InBounds ⟨array, index⟩ ↔ 0 ≤ index ∧ index < array.size :=
  Iff.rfl

theorem inBounds_nat {array : ParseArray} {n : Nat} :
    Access.InBounds ⟨array, n⟩ ↔ n < array.size := by
  simp [inBounds_iff]

theorem touchPeer_ok {array : ParseArray} {peer : Int} {nPeers : Nat} {count : Int} {u : Unit} :
    (touchPeer array peer nPeers count).result = .ok u ↔ PeerFree peer nPeers := by
  rw [result_touchPeer, except_bind_ok]
  simp [reject_ok, PeerFree]

theorem all_touchPeer {array : ParseArray} {peer count : Int} {nPeers : Nat}
    (hsize : array.size = mscclMaxNumThreadBlocksPerChannel) (hlo : 0 ≤ count)
    (hhi : count < mscclMaxCount) :
    (touchPeer array peer nPeers count).All Access.InBounds ↔ (PeerFree peer nPeers → count ≠ 0) := by
  have hcount : Access.InBounds ⟨.nchunksForPeer, count - 1⟩ ↔ count ≠ 0 := by
    simp only [inBounds_iff, ParseArray.size]
    omega
  simp only [touchPeer, touch, all_bind, all_check, all_note, result_check, result_note, true_and,
    reject_ok, inBounds_nat, hcount, hsize, PeerFree]
  constructor
  · rintro h ⟨hpeer, hfree⟩
    exact (h () (by omega) () (by omega)).2 () trivial
  · intro h _ hpeer _ hfree
    exact ⟨by omega, fun _ _ => h ⟨by omega, by omega⟩⟩

section

variable {ctx : TbContext} {st : TbParse} {before : List XmlStep} {x : XmlStep} {kind : StepKind}
  {srcbuffer dstbuffer : BufferType}

theorem stepKind_reduce {type : String} (h : stepKind type = .ok kind)
    (hre : kind.transferType = some .reduce) :
    kind = ⟨some .reduce, false, false, true, true⟩ := by
  have htype := (stepKind_eq_reduce h).mp hre
  rw [htype] at h
  exact (Except.ok.inj h).symm

theorem all_touchTransfer {type : TransferType} {continuation : Bool} :
    (touchTransfer ctx st x kind type srcbuffer dstbuffer continuation).All Access.InBounds ↔
      Access.InBounds ⟨.transfers,
        if continuation then (st.tb.transfers.length : Int) - 1 else st.tb.transfers.length⟩ ∧
      (0 ≤ x.count → x.count < mscclMaxCount →
        (kind.hasSend = true → PeerFree ctx.sendpeer ctx.nSendPeers → x.count ≠ 0) ∧
        ((kind.hasSend = true → PeerFree ctx.sendpeer ctx.nSendPeers) →
          (kind.hasRecv = true → PeerFree ctx.recvpeer ctx.nRecvPeers → x.count ≠ 0) ∧
          ((kind.hasRecv = true → PeerFree ctx.recvpeer ctx.nRecvPeers) →
            (kind.checkSrc = true →
              mscclCheckBufferBounds srcbuffer (i16 x.srcoffset) ctx.chunks = .ok ()) →
            (kind.checkDst = true →
              mscclCheckBufferBounds dstbuffer (i16 x.dstoffset) ctx.chunks = .ok ()) →
            (continuation = false → st.oldDependencePointer < st.tb.dependentBid.length →
              0 ≤ x.dependBid) →
            type = .reduce → st.tb.reductionSrcOffsets.length < mscclMaxNumSteps))) := by
  simp only [touchTransfer, touch, all_note_bind, all_guard_bind, all_when_bind, all_note,
    all_check, touchPeer_ok, reject_ok, onlyIf_ok, inBounds_nat, Bool.not_eq_true',
    decide_eq_true_eq, implies_true, and_true, ParseArray.size]
  refine and_congr_right fun _ => ?_
  have hcount : ¬ (x.count < 0 ∨ x.count ≥ mscclMaxCount) ↔ 0 ≤ x.count ∧ x.count < mscclMaxCount := by
    omega
  have hchain : ¬ (st.tb.dependentBid.length - st.oldDependencePointer > 0 ∧ x.dependBid < 0) ↔
      (st.oldDependencePointer < st.tb.dependentBid.length → 0 ≤ x.dependBid) := by
    omega
  rw [hcount, hchain, and_imp]
  refine forall₂_congr fun hlo hhi => ?_
  rw [all_touchPeer rfl hlo hhi, all_touchPeer rfl hlo hhi]

theorem Counted.all_touchTransfer (h : Counted before st) {type : TransferType}
    (hle : transferCount before ≤ mscclMaxNumSteps) (hkind : stepKind x.type = .ok kind)
    (htype : kind.transferType = some type) :
    (touchTransfer ctx ((st.addDependence x).startChain (some type) (continuesLast before x)) x kind
      type srcbuffer dstbuffer (continuesLast before x)).All Access.InBounds ↔
      TransferFits ctx before x kind srcbuffer dstbuffer := by
  obtain ⟨hpointer, htrans, hreds, -, -, -⟩ := addDependence_keeps st x
  have hre : type = .reduce ↔ x.type = "re" := by
    rw [← stepKind_eq_reduce hkind, htype, Option.some_inj]
  have hchain : (continuesLast before x = false →
      st.oldDependencePointer < (st.addDependence x).tb.dependentBid.length → 0 ≤ x.dependBid) ↔
      (¬ continuesLast before x → 0 < openDependences before → 0 ≤ x.dependBid) := by
    rw [addDependence_length, Bool.not_eq_true]
    refine forall_congr' fun _ => ?_
    have hp := h.pointer
    split <;> omega
  rw [Msccl.all_touchTransfer, startChain_tb, startChain_oldDependencePointer, htrans, hreds,
    hpointer, h.transfers, h.reductions, hchain, hre]
  have hslot : Access.InBounds ⟨.transfers, if continuesLast before x then
      (transferCount before : Int) - 1 else transferCount before⟩ ↔
      (¬ continuesLast before x → transferCount before < mscclMaxNumSteps) := by
    cases hcont : continuesLast before x with
    | false => simp [inBounds_nat, ParseArray.size]
    | true =>
        have hpos := h.transferCount_pos hcont
        simp only [inBounds_iff, ParseArray.size, if_true, not_true, false_implies, iff_true]
        omega
  rw [hslot]
  constructor
  · rintro ⟨hslot, hrest⟩
    refine ⟨hslot, fun hpeer hzero => ?_, fun htypere hlo hhi hsrc hdst hchain => ?_⟩
    · obtain ⟨hsend, hrest⟩ := hrest (by omega) (by rw [hzero]; decide)
      rcases hpeer with ⟨hhas, hfree⟩ | ⟨hnot, hhas, hfree⟩
      · exact hsend hhas hfree hzero
      · exact (hrest fun hhas' => by simp [hnot] at hhas').1 hhas hfree hzero
    · have hreduce := stepKind_reduce hkind (htype.trans (congrArg some (hre.mpr htypere)))
      obtain ⟨-, hrest⟩ := hrest hlo hhi
      rw [hreduce] at hrest
      exact (hrest (by simp)).2 (by simp) (fun _ => hsrc) (fun _ => hdst) hchain htypere
  · rintro ⟨hslot, hcount, hreduction⟩
    refine ⟨hslot, fun hlo hhi => ⟨fun hhas hfree => hcount (.inl ⟨hhas, hfree⟩), fun hsend => ?_⟩⟩
    refine ⟨fun hhas hfree => ?_, fun _ hsrc hdst hchain htypere => ?_⟩
    · by_cases hhas' : kind.hasSend = true
      · exact hcount (.inl ⟨hhas', hsend hhas'⟩)
      · exact hcount (.inr ⟨Bool.eq_false_iff.mpr hhas', hhas, hfree⟩)
    · have hreduce := stepKind_reduce hkind (htype.trans (congrArg some (hre.mpr htypere)))
      rw [hreduce] at hsrc hdst
      exact hreduction htypere hlo hhi (hsrc rfl) (hdst rfl) hchain

/-- The accesses of a step are in bounds if and only if it fits. -/
theorem Counted.all_touchStep (h : Counted before st)
    (hle : transferCount before ≤ mscclMaxNumSteps) :
    (touchStep ctx st x).All Access.InBounds ↔ StepFits ctx before x := by
  rw [touchStep, all_guard_bind, all_guard_bind, all_check_bind, reject_ok, reject_ok, StepFits]
  rw [imp.swap, not_lt, ge_iff_le, not_le]
  refine forall₂_congr fun _ _ => forall₂_congr fun kind hkind => ?_
  rw [all_when_bind]
  refine and_congr ?_ ?_
  · simp [inBounds_nat, h.dependences, ParseArray.size]
  · have hparts : (decide (x.dependBid ≥ 0) = true → (notes
        [⟨.dependentBid, st.tb.dependentBid.length⟩, ⟨.dependentStep, st.tb.dependentBid.length⟩] :
          ParseTrace Unit).result = .ok ()) := fun _ => rfl
    rw [imp_iff_right hparts, all_check_bind]
    constructor
    · intro hall srcbuffer dstbuffer hsrc hdst htransfer
      have hrest := hall srcbuffer hsrc
      rw [all_check_bind] at hrest
      have hrest := hrest dstbuffer hdst
      rw [h.continues_eq hkind hsrc hdst] at hrest
      cases htype : kind.transferType with
      | none => exact absurd htype htransfer
      | some type =>
          rw [htype] at hrest
          exact (h.all_touchTransfer hle hkind htype).mp hrest
    · intro hfits srcbuffer hsrc
      rw [all_check_bind]
      intro dstbuffer hdst
      rw [h.continues_eq hkind hsrc hdst]
      have hfits := hfits srcbuffer dstbuffer hsrc hdst
      cases htype : kind.transferType with
      | none => exact (all_pure _).mpr trivial
      | some type =>
          rw [htype] at hfits
          exact (h.all_touchTransfer hle hkind htype).mpr (hfits (by simp))

theorem transferCount_le (hle : transferCount before ≤ mscclMaxNumSteps)
    (hfits : StepFits ctx before x) (hstep : addStep ctx st x = .ok st') :
    transferCount (before ++ [x]) ≤ mscclMaxNumSteps := by
  obtain ⟨hlo, hhi, kind, srcbuffer, dstbuffer, hkind, hsrc, hdst, -⟩ := addStep_ok hstep
  rw [transferCount_snoc]
  split
  · rename_i hnew
    have htransfer : kind.transferType ≠ none := fun hnone =>
      hnew.1 ((stepKind_eq_none hkind).mp hnone)
    have hslot := ((hfits hlo hhi kind hkind).2 srcbuffer dstbuffer hsrc hdst htransfer).slot hnew.2
    exact hslot
  · exact hle

end

end CollectiveSim.Msccl
