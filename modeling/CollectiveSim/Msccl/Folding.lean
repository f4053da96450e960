import Mathlib
import CollectiveSim.Framework.Slice
import CollectiveSim.Framework.Traced
import CollectiveSim.Msccl.Parser

/-!
# Folding nops into transfers

The parser turns the steps of a thread block into transfers: each takes the nops in front of it with
their dependences.
-/

namespace CollectiveSim.Msccl

open Framework

/-! ### The segments of a step list -/

/-- The steps with the nops that are still to be folded in front of them. -/
def segmentsFrom : List XmlStep → List XmlStep → List (List XmlStep)
  | _, [] => []
  | nops, x :: xs =>
      if x.type = "nop" then segmentsFrom (nops ++ [x]) xs
      else (nops ++ [x]) :: segmentsFrom [] xs

/-- The steps that each transfer covers: the transfer's own step is the last of its segment. Nops
behind the last transfer are in no segment. -/
def segments (xs : List XmlStep) : List (List XmlStep) := segmentsFrom [] xs

/-- The dependences of a segment as they are stored. -/
def attached (seg : List XmlStep) : List (Int × Int) :=
  (seg.filter fun x => decide (0 ≤ x.dependBid)).map fun x => (i8 x.dependBid, i16 x.dependStep)

/-- The steps of one thread block, of the kinds that the interpreter runs, in order and without a
nop that depends on nothing. -/
structure PlainSteps (xs : List XmlStep) : Prop where
  numbered : ∀ (j : Nat) (x : XmlStep), xs[j]? = some x → x.s = j
  nop_dependence : ∀ x ∈ xs, x.type = "nop" → 0 ≤ x.dependBid
  implemented : ∀ x ∈ xs, x.type ∈ ["s", "r", "rrc", "cpy", "nop"]

instance (xs : List XmlStep) : Decidable (PlainSteps xs) :=
  decidable_of_iff ((∀ (j : Nat) (h : j < xs.length), xs[j].s = j) ∧
      (∀ x ∈ xs, x.type = "nop" → 0 ≤ x.dependBid) ∧
      ∀ x ∈ xs, x.type ∈ ["s", "r", "rrc", "cpy", "nop"])
    ⟨fun ⟨hnum, hnop, himp⟩ =>
      ⟨fun j _ hx => (List.getElem?_eq_some_iff.mp hx).elim fun hj hxj => hxj ▸ hnum j hj, hnop, himp⟩,
    fun ⟨hnum, hnop, himp⟩ => ⟨fun j hj => hnum j _ (List.getElem?_eq_getElem hj), hnop, himp⟩⟩

/-- A transfer has the data of its step. -/
structure Carries (ctx : TbContext) (x : XmlStep) (tran : MscclTransfer) : Prop where
  kind : ∃ kind, stepKind x.type = .ok kind ∧ kind.transferType = some tran.type ∧
    (kind.hasSend = true → 0 ≤ ctx.sendpeer) ∧ (kind.hasRecv = true → 0 ≤ ctx.recvpeer)
  srcbuffer : mscclGetBufferType x.srcbuffer = .ok tran.srcbuffer
  dstbuffer : mscclGetBufferType x.dstbuffer = .ok tran.dstbuffer
  srcoffset : tran.srcoffset = i16 x.srcoffset
  dstoffset : tran.dstoffset = i16 x.dstoffset
  count : (tran.count : Int) = x.count
  count_lt : tran.count < mscclMaxCount

/-- A transfer stands for a segment. -/
structure Folds (ctx : TbContext) (tb : MscclThreadBlock) (seg : List XmlStep)
    (tran : MscclTransfer) : Prop where
  dependences : tb.dependences tran = attached seg
  numDependences : tran.numDependences = (attached seg).length
  width : seg.length = max 1 tran.numDependences
  carries : ∃ x, seg.getLast? = some x ∧ Carries ctx x tran

theorem segmentsFrom_flatten (nops xs : List XmlStep) :
    ∃ rest, nops ++ xs = (segmentsFrom nops xs).flatten ++ rest := by
  induction xs generalizing nops with
  | nil => exact ⟨nops, by simp [segmentsFrom]⟩
  | cons x xs ih =>
      rw [segmentsFrom]
      by_cases hx : x.type = "nop"
      · obtain ⟨rest, hrest⟩ := ih (nops ++ [x])
        rw [if_pos hx, List.append_cons, hrest]
        exact ⟨rest, rfl⟩
      · obtain ⟨rest, hrest⟩ := ih []
        rw [if_neg hx]
        refine ⟨rest, ?_⟩
        rw [List.nil_append] at hrest
        rw [List.flatten_cons, List.append_assoc, List.append_assoc, ← hrest]
        rfl

theorem segments_flatten (xs : List XmlStep) : ∃ rest, xs = (segments xs).flatten ++ rest :=
  segmentsFrom_flatten [] xs

/-! ### One step of the parser -/

theorem failIf_ok {e : AlgoParseError} {p : Prop} [Decidable p] {u : Unit} :
    failIf e p = .ok u ↔ ¬ p := by
  by_cases hp : p <;> simp [failIf, hp]

theorem reject_ok {p : Prop} [Decidable p] {u : Unit} : reject p = .ok u ↔ ¬ p := failIf_ok

theorem onlyIf_ok {b : Bool} {check : Parse Unit} {u : Unit} :
    onlyIf b check = .ok u ↔ (b = true → check = .ok ()) := by
  cases b with
  | false => simp [onlyIf]
  | true => simp [onlyIf]

theorem addStep_nop {ctx : TbContext} {st st' : TbParse} {x : XmlStep} (hx : x.type = "nop")
    (h : addStep ctx st x = .ok st') : st' = st.addDependence x := by
  have hkind : stepKind "nop" = .ok ⟨none, false, false, false, false⟩ := by decide
  simp [addStep, hx, hkind, except_bind_ok, reject_ok] at h
  obtain ⟨-, -, -, -, h⟩ := h
  cases h
  rfl

theorem addStep_transfer {ctx : TbContext} {st st' : TbParse} {x : XmlStep} {kind : StepKind}
    {type : TransferType} (hkind : stepKind x.type = .ok kind)
    (htype : kind.transferType = some type) (hreduce : type ≠ .reduce)
    (h : addStep ctx st x = .ok st') :
    ∃ tran, Carries ctx x tran ∧
      st'.tb = { (st.addDependence x).tb with transfers := st.tb.transfers ++ [tran] } ∧
      st'.oldDependencePointer = (st.addDependence x).tb.dependentBid.length ∧
      tran.depencePointer = st.oldDependencePointer ∧
      tran.numDependences =
        (st.addDependence x).tb.dependentBid.length - st.oldDependencePointer ∧
      (0 < tran.numDependences → 0 ≤ x.dependBid) := by
  have hptr : (st.addDependence x).oldDependencePointer = st.oldDependencePointer := by
    rw [TbParse.addDependence]
    split <;> rfl
  have htransfers : (st.addDependence x).tb.transfers = st.tb.transfers := by
    rw [TbParse.addDependence]
    split <;> rfl
  simp [addStep, hkind, htype, hreduce, except_bind_ok, except_map_ok, reject_ok, onlyIf_ok,
    TbParse.addTransfer, mscclCheckBufferBounds, hptr, htransfers] at h
  obtain ⟨-, -, srcbuffer, hsrc, dstbuffer, hdst, ⟨hcount, hlt⟩, hsend, -, hrecv, -, -, -, hchain, -,
    h⟩ := h
  have hnat : ((x.count.toNat : Nat) : Int) = x.count := Int.toNat_of_nonneg hcount
  subst h
  refine ⟨_, ?_, rfl, rfl, rfl, rfl, fun hpos => hchain (Nat.lt_of_sub_pos hpos)⟩
  exact {
    kind := ⟨kind, hkind, htype, hsend, hrecv⟩
    srcbuffer := hsrc
    dstbuffer := hdst
    srcoffset := rfl
    dstoffset := rfl
    count := hnat
    count_lt := by
      show x.count.toNat < mscclMaxCount
      omega }

/-! ### All steps of a thread block -/

/-- The loop over the steps once they are read. -/
def addSteps (ctx : TbContext) (st : TbParse) (xs : List XmlStep) : Parse TbParse :=
  xs.foldlM (addStep ctx) st

/-- The dependence tables as one list. -/
def MscclThreadBlock.table (tb : MscclThreadBlock) : List (Int × Int) :=
  tb.dependentBid.zip tb.dependentStep

/-- The dependences since the last transfer are those of these nops. -/
structure Pending (st : TbParse) (nops : List XmlStep) : Prop where
  lengths : st.tb.dependentBid.length = st.tb.dependentStep.length
  slice : SliceAt st.tb.table st.oldDependencePointer (attached nops)
  full : st.oldDependencePointer + nops.length = st.tb.dependentBid.length
  carry : ∀ x ∈ nops, 0 ≤ x.dependBid

theorem attached_length {seg : List XmlStep} (h : ∀ x ∈ seg, 0 ≤ x.dependBid) :
    (attached seg).length = seg.length := by
  rw [attached, List.length_map, List.filter_eq_self.mpr]
  intro x hx
  exact decide_eq_true (h x hx)

theorem attached_append (xs ys : List XmlStep) :
    attached (xs ++ ys) = attached xs ++ attached ys := by
  rw [attached, List.filter_append, List.map_append]
  rfl

theorem addDependence_table (st : TbParse) (x : XmlStep)
    (hlen : st.tb.dependentBid.length = st.tb.dependentStep.length) :
    (st.addDependence x).tb.table = st.tb.table ++ attached [x] ∧
    (st.addDependence x).tb.dependentBid.length =
      st.tb.dependentBid.length + (attached [x]).length ∧
    (st.addDependence x).tb.dependentBid.length = (st.addDependence x).tb.dependentStep.length ∧
    (st.addDependence x).oldDependencePointer = st.oldDependencePointer ∧
    (st.addDependence x).tb.transfers = st.tb.transfers := by
  by_cases hx : 0 ≤ x.dependBid
  · have hatt : attached [x] = [(i8 x.dependBid, i16 x.dependStep)] := by
      rw [attached, List.filter_singleton, decide_eq_true hx]
      rfl
    rw [TbParse.addDependence, if_pos hx, hatt]
    refine ⟨?_, by simp, by simp [hlen], rfl, rfl⟩
    rw [MscclThreadBlock.table, List.zip_append hlen]
    rfl
  · have hatt : attached [x] = [] := by
      rw [attached, List.filter_singleton, decide_eq_false hx]
      rfl
    rw [TbParse.addDependence, if_neg hx, hatt]
    exact ⟨(List.append_nil _).symm, rfl, hlen, rfl, rfl⟩

theorem MscclThreadBlock.dependences_eq {tb : MscclThreadBlock} {tran : MscclTransfer}
    {deps : List (Int × Int)} (h : SliceAt tb.table tran.depencePointer deps)
    (hlen : tran.numDependences = deps.length) : tb.dependences tran = deps := by
  obtain ⟨pre, post, heq, hpre⟩ := h
  rw [dependences, ← table, heq, ← hpre, List.append_assoc, List.drop_left', List.take_left']
  · exact hlen.symm
  · rfl

theorem implemented_cases {x : XmlStep} (h : x.type ∈ ["s", "r", "rrc", "cpy", "nop"]) :
    x.type = "nop" ∨ (x.type ≠ "nop" ∧ ∃ kind type, stepKind x.type = .ok kind ∧
      kind.transferType = some type ∧ type ≠ .reduce) := by
  simp only [List.mem_cons, List.not_mem_nil, or_false] at h
  rcases h with h | h | h | h | h
  · right
    rw [h]
    exact ⟨by decide, _, _, rfl, rfl, by decide⟩
  · right
    rw [h]
    exact ⟨by decide, _, _, rfl, rfl, by decide⟩
  · right
    rw [h]
    exact ⟨by decide, _, _, rfl, rfl, by decide⟩
  · right
    rw [h]
    exact ⟨by decide, _, _, rfl, rfl, by decide⟩
  · exact Or.inl h

theorem Pending.nop {st : TbParse} {nops : List XmlStep} {x : XmlStep} (h : Pending st nops)
    (hx : 0 ≤ x.dependBid) : Pending (st.addDependence x) (nops ++ [x]) := by
  obtain ⟨htable, hlen, hlens, hptr, -⟩ := addDependence_table st x h.lengths
  have hone : (attached [x]).length = 1 := attached_length fun y hy => by
    rwa [List.mem_singleton.mp hy]
  have hend : st.oldDependencePointer + (attached nops).length = st.tb.table.length := by
    rw [attached_length h.carry, h.full, MscclThreadBlock.table, List.length_zip, ← h.lengths,
      Nat.min_self]
  refine ⟨hlens, ?_, ?_, ?_⟩
  · obtain ⟨pre, post, heq, hpre⟩ := h.slice
    have hpost : post = [] := by
      rw [heq, ← hpre, List.length_append, List.length_append] at hend
      exact List.length_eq_zero_iff.mp (by omega)
    rw [htable, hptr, attached_append, heq, hpost]
    exact ⟨pre, [], by simp, hpre⟩
  · rw [hptr, hlen, hone, List.length_append, List.length_singleton, ← Nat.add_assoc, h.full]
  · intro y hy
    rcases List.mem_append.mp hy with hy | hy
    · exact h.carry y hy
    · rwa [List.mem_singleton.mp hy]

theorem Pending.transfer {ctx : TbContext} {st st' : TbParse} {nops : List XmlStep} {x : XmlStep}
    {kind : StepKind} {type : TransferType} (h : Pending st nops)
    (hkind : stepKind x.type = .ok kind) (htype : kind.transferType = some type)
    (hreduce : type ≠ .reduce) (hstep : addStep ctx st x = .ok st') :
    Pending st' [] ∧ ∃ tran, Carries ctx x tran ∧
      st'.tb.transfers = st.tb.transfers ++ [tran] ∧
      (∃ more, st'.tb.table = st.tb.table ++ more) ∧
      SliceAt st'.tb.table tran.depencePointer (attached (nops ++ [x])) ∧
      tran.numDependences = (attached (nops ++ [x])).length ∧
      (nops ++ [x]).length = max 1 tran.numDependences := by
  obtain ⟨tran, hcarries, htb, hptr', hpointer, hnum, hchain⟩ :=
    addStep_transfer hkind htype hreduce hstep
  obtain ⟨htable, hlen, hlens, hptr, htransfers⟩ := addDependence_table st x h.lengths
  have hnops := attached_length h.carry
  have hfull := h.full
  have htb' : st'.tb.table = st.tb.table ++ attached [x] := by
    rw [htb, ← htable]
    rfl
  have hend : st.oldDependencePointer + (attached nops).length = st.tb.table.length := by
    rw [hnops, hfull, MscclThreadBlock.table, List.length_zip, ← h.lengths, Nat.min_self]
  have hnum' : tran.numDependences = (attached (nops ++ [x])).length := by
    rw [attached_append, List.length_append, hnops, hnum]
    omega
  refine ⟨⟨?_, ?_, ?_, by simp⟩, tran, hcarries, ?_, ⟨_, htb'⟩, ?_, hnum', ?_⟩
  · rw [htb]
    exact hlens
  · exact ⟨st'.tb.table, [], by simp [attached], by
      rw [MscclThreadBlock.table, List.length_zip, hptr', htb]
      show min (st.addDependence x).tb.dependentBid.length _ = _
      rw [← hlens, Nat.min_self]⟩
  · rw [hptr', htb]
    rfl
  · rw [htb]
  · obtain ⟨pre, post, heq, hpre⟩ := h.slice
    have hpost : post = [] := by
      rw [heq, ← hpre, List.length_append, List.length_append] at hend
      exact List.length_eq_zero_iff.mp (by omega)
    rw [htb', hpointer, attached_append, heq, hpost]
    exact ⟨pre, [], by simp, hpre⟩
  · -- a step without a dependence follows no nop
    by_cases hx : 0 ≤ x.dependBid
    · have hone : (attached [x]).length = 1 := attached_length fun y hy => by
        rwa [List.mem_singleton.mp hy]
      rw [hnum', attached_append, List.length_append, List.length_append, hnops, hone,
        List.length_singleton]
      omega
    · have hzero : tran.numDependences = 0 := by
        by_contra hne
        exact hx (hchain (Nat.pos_of_ne_zero hne))
      rw [attached_append, List.length_append, hnops] at hnum'
      rw [List.length_append, List.length_singleton, hzero]
      omega

/-- The transfers that the parser adds stand for the segments of the steps, one for one. -/
theorem addSteps_folds {ctx : TbContext} {xs : List XmlStep}
    (hnop : ∀ x ∈ xs, x.type = "nop" → 0 ≤ x.dependBid)
    (himpl : ∀ x ∈ xs, x.type ∈ ["s", "r", "rrc", "cpy", "nop"]) {st st' : TbParse}
    {nops : List XmlStep} (hpend : Pending st nops) (h : addSteps ctx st xs = .ok st') :
    (∃ more, st'.tb.table = st.tb.table ++ more) ∧
    ∃ new, st'.tb.transfers = st.tb.transfers ++ new ∧
      List.Forall₂ (Folds ctx st'.tb) (segmentsFrom nops xs) new := by
  induction xs generalizing st nops with
  | nil =>
      cases h
      exact ⟨⟨[], (List.append_nil _).symm⟩, [], (List.append_nil _).symm, .nil⟩
  | cons x xs ih =>
      rw [addSteps, List.foldlM_cons, except_bind_ok] at h
      obtain ⟨st₁, hstep, hrest⟩ := h
      have hnop' : ∀ y ∈ xs, y.type = "nop" → 0 ≤ y.dependBid := fun y hy =>
        hnop y (List.mem_cons_of_mem x hy)
      have himpl' : ∀ y ∈ xs, y.type ∈ ["s", "r", "rrc", "cpy", "nop"] := fun y hy =>
        himpl y (List.mem_cons_of_mem x hy)
      rcases implemented_cases (himpl x List.mem_cons_self) with
        hx | ⟨hx, kind, type, hkind, htype, hre⟩
      · obtain rfl := addStep_nop hx hstep
        obtain ⟨htable, -, -, -, htransfers⟩ := addDependence_table st x hpend.lengths
        obtain ⟨⟨more, hmore⟩, new, hnew, hfolds⟩ :=
          ih hnop' himpl' (hpend.nop (hnop x List.mem_cons_self hx)) hrest
        rw [segmentsFrom, if_pos hx]
        refine ⟨⟨attached [x] ++ more, ?_⟩, new, ?_, hfolds⟩
        · rw [hmore, htable, List.append_assoc]
        · rw [hnew, htransfers]
      · obtain ⟨hpend', tran, hcarries, htransfers, ⟨more, htable⟩, hslice, hnum, hwidth⟩ :=
          hpend.transfer hkind htype hre hstep
        obtain ⟨⟨more', hmore'⟩, new, hnew, hfolds⟩ := ih hnop' himpl' hpend' hrest
        rw [segmentsFrom, if_neg hx]
        refine ⟨⟨more ++ more', ?_⟩, tran :: new, ?_, .cons ?_ hfolds⟩
        · rw [hmore', htable, List.append_assoc]
        · rw [hnew, htransfers, List.append_assoc]
          rfl
        · have hslice' := hslice.append_right more'
          rw [← hmore'] at hslice'
          exact {
            dependences := MscclThreadBlock.dependences_eq hslice' hnum
            numDependences := hnum
            width := hwidth
            carries := ⟨x, by simp, hcarries⟩ }

theorem addSteps_s_lt {ctx : TbContext} {xs : List XmlStep} {st st' : TbParse}
    (h : addSteps ctx st xs = .ok st') : ∀ x ∈ xs, x.s < mscclMaxNumSteps := by
  induction xs generalizing st with
  | nil => simp
  | cons x xs ih =>
      rw [addSteps, List.foldlM_cons, except_bind_ok] at h
      obtain ⟨st₁, hstep, hrest⟩ := h
      simp only [addStep, except_bind_ok, reject_ok] at hstep
      obtain ⟨-, hlt, -⟩ := hstep
      intro y hy
      rcases List.mem_cons.mp hy with rfl | hy
      · omega
      · exact ih hrest y hy

end CollectiveSim.Msccl
