import Mathlib
import CollectiveSim.Framework.Schedule
import CollectiveSim.Msccl.Collective
import CollectiveSim.Msccl.Dependency
import CollectiveSim.Msccl.Receive

/-!
# One transfer at a time

The meaning of a collective when its transfers are executed one after the other: a send leaves its bytes
as the next message of its connection, and the receive with the same number takes them. Which transfer
has to come before which is read off the document.
-/

namespace CollectiveSim.Msccl

open Framework

/-- A transfer of a thread block of a GPU. -/
structure Op where
  gpu : Nat
  bid : Nat
  sid : Nat
  deriving DecidableEq

/-- The place of a message: the `index`-th of its connection. -/
structure Slot where
  conn : ConnId
  index : Nat
  deriving DecidableEq

/-- The two ends of a connection. -/
inductive Side
  | sending
  | receiving
  deriving DecidableEq

namespace Side

def peer : Side → MscclThreadBlock → Int
  | sending, tb => tb.sendpeer
  | receiving, tb => tb.recvpeer

def conn : Side → Nat → MscclThreadBlock → ConnId
  | sending => Collective.sendConn
  | receiving => Collective.recvConn

/-- The transfers that use this end. -/
def Has : Side → TransferType → Bool
  | sending, .send => true
  | receiving, .recv | receiving, .recvReduceCopy => true
  | _, _ => false

/-- How many transfers of this end stand before a transfer of the thread block. -/
def index (side : Side) (tb : MscclThreadBlock) (sid : Nat) : Nat :=
  (tb.transfers.take sid).countP fun tran => side.Has tran.type

def counts (side : Side) (tb : MscclThreadBlock) : List Nat :=
  (tb.transfers.filter fun tran => side.Has tran.type).map MscclTransfer.count

end Side

namespace MscclTransfer

variable (cfg : AppConfig) (tran : MscclTransfer)

def source : Region := ⟨tran.srcbuffer, cfg.bufferOffset tran.srcoffset, cfg.bytes tran.count⟩

def target : Region := ⟨tran.dstbuffer, cfg.bufferOffset tran.dstoffset, cfg.bytes tran.count⟩

/-- The bytes of its GPU's buffers that the transfer reads before it writes. -/
def Reads (buf : BufferType) (x : Nat) : Prop :=
  match tran.type with
  | .send | .localCopy => (tran.source cfg).Has buf x
  | .recvReduceCopy => (tran.target cfg).Has buf x
  | _ => False

def Writes (buf : BufferType) (x : Nat) : Prop :=
  match tran.type with
  | .recv | .recvReduceCopy | .localCopy => (tran.target cfg).Has buf x
  | _ => False

def Touches (buf : BufferType) (x : Nat) : Prop := tran.Reads cfg buf x ∨ tran.Writes cfg buf x

/-- The call of `Recv` or `RecvRedCp` for the transfer. -/
def posted (bid sid : Nat) (op : RecvOp) : PostedRecv :=
  ⟨bid, sid, tran.count, op, tran.dstbuffer, tran.dstoffset⟩

end MscclTransfer

namespace Op

variable (cfg : AppConfig) (algos : Nat → Option MscclAlgorithm) (op : Op)

def tb : MscclThreadBlock :=
  match algos op.gpu with
  | some algo => algo.mscclTBs op.bid
  | none => .zero

/-- The transfer, if the collective has it. -/
def transfer : Option MscclTransfer :=
  match algos op.gpu with
  | some algo => if op.bid < algo.nBlocks then (algo.mscclTBs op.bid).transfers[op.sid]? else none
  | none => none

/-- The message that belongs to the transfer at one end of a connection. -/
def slot (side : Side) (tran : MscclTransfer) : Option Slot :=
  if side.Has tran.type ∧ 0 ≤ side.peer (op.tb algos) then
    some ⟨side.conn op.gpu (op.tb algos), side.index (op.tb algos) op.sid⟩
  else none

/-- The message that the transfer waits for; one without bytes waits for nothing. -/
def takes (tran : MscclTransfer) : Option Slot :=
  if 0 < cfg.bytes tran.count then op.slot algos .receiving tran else none

end Op

/-! ### Executing one transfer as a whole -/

structure SeqState where
  memory : Nat → Memory
  message : Slot → List UInt8

namespace SeqState

variable (cfg : AppConfig) (algos : Nat → Option MscclAlgorithm) (op : Op) (tran : MscclTransfer)

def initial (memory : Nat → Memory) : SeqState := ⟨memory, fun _ => []⟩

def setMemory (m : Memory) (s : SeqState) : SeqState :=
  { s with memory := Function.update s.memory op.gpu m }

def receive (kind : RecvOp) (s : SeqState) : SeqState :=
  match op.takes cfg algos tran with
  | some slot =>
      s.setMemory op ((tran.posted op.bid op.sid kind).receive cfg
        ((s.message slot).take (cfg.bytes tran.count)) (s.memory op.gpu))
  | none => s

def transfer (s : SeqState) : SeqState :=
  match tran.type with
  | .send =>
      match op.slot algos .sending tran with
      | some slot =>
          { s with message :=
              Function.update s.message slot ((s.memory op.gpu).read (tran.source cfg)) }
      | none => s
  | .recv => s.receive cfg algos op tran .recv
  | .recvReduceCopy => s.receive cfg algos op tran .recvReduceCopy
  | .localCopy =>
      s.setMemory op ((s.memory op.gpu).write tran.dstbuffer (cfg.bufferOffset tran.dstoffset)
        ((s.memory op.gpu).read (tran.source cfg)))
  | _ => s

def exec (s : SeqState) (op : Op) : SeqState :=
  match op.transfer algos with
  | some tran => s.transfer cfg algos op tran
  | none => s

end SeqState

/-! ### Which transfer comes before which -/

/-- A step of the document. -/
structure StepId where
  gpu : Nat
  bid : Nat
  index : Nat
  deriving DecidableEq

/-- The program order of a thread block and the dependences between the steps of one GPU. -/
inductive LocalBefore (root : XmlNode) : StepId → StepId → Prop
  | program {gpu bid j : Nat} (hj : j + 1 < (xmlSteps root gpu bid).length) :
      LocalBefore root ⟨gpu, bid, j⟩ ⟨gpu, bid, j + 1⟩
  | dependence {gpu bid i j : Nat} {x y : XmlStep} (hx : (xmlSteps root gpu bid)[j]? = some x)
      (hbid : 0 ≤ x.dependBid) (hy : (xmlSteps root gpu x.dependBid.toNat)[i]? = some y)
      (hs : y.s = x.dependStep) :
      LocalBefore root ⟨gpu, x.dependBid.toNat, i⟩ ⟨gpu, bid, j⟩

/-- The step that the transfer stands for, the last one that it covers. -/
def Op.step (algos : Nat → Option MscclAlgorithm) (op : Op) : StepId :=
  ⟨op.gpu, op.bid, (op.tb algos).start (op.sid + 1) - 1⟩

section

variable (cfg : AppConfig) (root : XmlNode) (algos : Nat → Option MscclAlgorithm)

/-- Also a receive comes behind the send of its message. -/
inductive StepBefore : StepId → StepId → Prop
  | inner {p q : StepId} (h : LocalBefore root p q) : StepBefore p q
  | message {a b : Op} {tran tran' : MscclTransfer} {slot : Slot}
      (ha : a.transfer algos = some tran) (hb : b.transfer algos = some tran')
      (hsend : a.slot algos .sending tran = some slot) (htake : b.takes cfg algos tran' = some slot) :
      StepBefore (a.step algos) (b.step algos)

def Op.Before (a b : Op) : Prop :=
  Relation.TransGen (StepBefore cfg root algos) (a.step algos) (b.step algos)

/-- All transfers of the collective, in an order that respects the steps they stand for. -/
structure IsOrder (order : List Op) : Prop where
  nodup : order.Nodup
  mem : ∀ op : Op, op ∈ order ↔ (op.transfer algos).isSome
  respects : Extends (Op.Before cfg root algos) order

/-- Two steps of a GPU of which one writes what the other touches are ordered by the program order
and the dependences of the GPU. -/
def ConflictsOrdered : Prop :=
  ∀ (a b : Op) (tran tran' : MscclTransfer), a.gpu = b.gpu → a ≠ b →
    a.transfer algos = some tran → b.transfer algos = some tran' →
    (∃ buf x, tran.Writes cfg buf x ∧ tran'.Touches cfg buf x) →
      Relation.TransGen (LocalBefore root) (a.step algos) (b.step algos) ∨
      Relation.TransGen (LocalBefore root) (b.step algos) (a.step algos)

/-- The thread block has transfers for this end of the connection. -/
structure Side.Uses (side : Side) (c : ConnId) (gpu bid : Nat) (algo : MscclAlgorithm) : Prop where
  gpu_algo : algos gpu = some algo
  bid_lt : bid < algo.nBlocks
  conn : side.conn gpu (algo.mscclTBs bid) = c
  peer : 0 ≤ side.peer (algo.mscclTBs bid)
  has : ∃ tran ∈ (algo.mscclTBs bid).transfers, side.Has tran.type

/-- At each end of a connection there is at most one thread block, with these counts. -/
structure Paired (counts : ConnId → List Nat) : Prop where
  unique : ∀ (side : Side) (c : ConnId) (gpu gpu' bid bid' : Nat) (algo algo' : MscclAlgorithm),
    side.Uses algos c gpu bid algo → side.Uses algos c gpu' bid' algo' → gpu = gpu' ∧ bid = bid'
  counts : ∀ (side : Side) (c : ConnId) (gpu bid : Nat) (algo : MscclAlgorithm),
    side.Uses algos c gpu bid algo → side.counts (algo.mscclTBs bid) = counts c

end

/-! ### What a transfer touches -/

theorem Region.read_write (m : Memory) (r : Region) {data : List UInt8} (h : data.length = r.size) :
    (m.write r.buffer r.addr data).read r = data := by
  rw [Memory.read, Memory.write, Function.update_self, ← h]
  exact readRange_writeRange_self _ _ data

theorem Region.eq_of_read {m m' : Memory} {r : Region} (h : m.read r = m'.read r) {buf : BufferType}
    {x : Nat} (hx : r.Has buf x) : m buf x = m' buf x := by
  obtain ⟨rfl, hlo, hhi⟩ := hx
  obtain ⟨i, rfl⟩ := Nat.exists_eq_add_of_le hlo
  have hget := congrArg (fun bytes => bytes[i]?) h
  have hi : i < r.size := by omega
  simpa [Memory.read, readRange, hi] using hget

namespace PostedRecv

variable {cfg : AppConfig} {p : PostedRecv} {data : List UInt8} {m m' : Memory}

/-- The bytes that the receive leaves in its destination. -/
def landing (cfg : AppConfig) (p : PostedRecv) (data : List UInt8) (m : Memory) : List UInt8 :=
  match p.op with
  | .recv => data
  | .recvReduceCopy =>
      reduceAdd cfg data.length (m.read ⟨p.dstBuf, p.dst cfg, data.length⟩) data

theorem receive_eq (cfg : AppConfig) (p : PostedRecv) (data : List UInt8) (m : Memory) :
    p.receive cfg data m = m.write p.dstBuf (p.dst cfg) (p.landing cfg data m) := by
  rw [receive, landing]
  cases p.op <;> rfl

@[simp] theorem landing_length (cfg : AppConfig) (p : PostedRecv) (data : List UInt8) (m : Memory) :
    (p.landing cfg data m).length = data.length := by
  rw [landing]
  cases p.op with
  | recv => rfl
  | recvReduceCopy => exact reduceAdd_length _ (Memory.read_length _ _)

theorem landing_congr (m' : Memory) (h : p.op = .recvReduceCopy →
      m.read ⟨p.dstBuf, p.dst cfg, data.length⟩ = m'.read ⟨p.dstBuf, p.dst cfg, data.length⟩) :
    p.landing cfg data m = p.landing cfg data m' := by
  rw [landing, landing]
  cases hop : p.op with
  | recv => rfl
  | recvReduceCopy => simp only [h hop]

end PostedRecv

theorem Memory.write_cell {m m' : Memory} {buf : BufferType} {x : Nat} (h : m buf x = m' buf x)
    (buf' : BufferType) (addr : Nat) (data : List UInt8) :
    m.write buf' addr data buf x = m'.write buf' addr data buf x := by
  rw [write, write]
  by_cases hbuf : buf = buf'
  · subst hbuf
    rw [Function.update_self, Function.update_self, writeRange, writeRange, h]
  · rw [Function.update_of_ne hbuf, Function.update_of_ne hbuf, h]

section

variable {cfg : AppConfig} {algos : Nat → Option MscclAlgorithm} {op : Op} {tran : MscclTransfer}

theorem Op.transfer_eq_some : op.transfer algos = some tran ↔
    ∃ algo, algos op.gpu = some algo ∧ op.bid < algo.nBlocks ∧ op.tb algos = algo.mscclTBs op.bid ∧
      (algo.mscclTBs op.bid).transfers[op.sid]? = some tran := by
  rw [Op.transfer, Op.tb]
  cases halgo : algos op.gpu with
  | none => simp
  | some algo =>
      by_cases hbid : op.bid < algo.nBlocks
      · simp [hbid]
      · simp [hbid]

theorem Op.slot_eq_some {side : Side} {slot : Slot} : op.slot algos side tran = some slot ↔
    (side.Has tran.type = true ∧ 0 ≤ side.peer (op.tb algos)) ∧
      ⟨side.conn op.gpu (op.tb algos), side.index (op.tb algos) op.sid⟩ = slot := by
  rw [Op.slot]
  by_cases h : side.Has tran.type = true ∧ 0 ≤ side.peer (op.tb algos)
  · rw [if_pos h, Option.some_inj, and_iff_right h]
  · rw [if_neg h]
    constructor
    · intro hsome
      cases hsome
    · rintro ⟨hhas, -⟩
      exact absurd hhas h

theorem Op.takes_eq_some {slot : Slot} : op.takes cfg algos tran = some slot ↔
    0 < cfg.bytes tran.count ∧ op.slot algos .receiving tran = some slot := by
  rw [Op.takes]
  by_cases h : 0 < cfg.bytes tran.count
  · rw [if_pos h, and_iff_right h]
  · rw [if_neg h]
    constructor
    · intro hsome
      cases hsome
    · rintro ⟨hpos, -⟩
      exact absurd hpos h

theorem Side.has_sending {type : TransferType} (h : Side.sending.Has type = true) :
    type = .send := by
  cases type <;> first | rfl | cases h

theorem MscclTransfer.receive_of_not_has {bid sid : Nat} {kind : RecvOp} {data : List UInt8}
    (hlen : data.length ≤ cfg.bytes tran.count) (m : Memory) {buf : BufferType} {x : Nat}
    (h : ¬ (tran.target cfg).Has buf x) :
    (tran.posted bid sid kind).receive cfg data m buf x = m buf x := by
  rw [PostedRecv.receive_eq]
  apply Memory.write_of_not_has (r := tran.target cfg) m _ h
  rw [PostedRecv.landing_length]
  exact hlen

namespace SeqState

/-- The bytes of a GPU and the messages of the connections. -/
inductive Loc
  | cell (gpu : Nat) (buf : BufferType) (x : Nat)
  | message (slot : Slot)

def get (s : SeqState) : Loc → UInt8 ⊕ List UInt8
  | .cell gpu buf x => .inl (s.memory gpu buf x)
  | .message slot => .inr (s.message slot)

def Touched (cfg : AppConfig) (algos : Nat → Option MscclAlgorithm) (op : Op)
    (tran : MscclTransfer) : Loc → Prop
  | .cell gpu buf x => gpu = op.gpu ∧ tran.Touches cfg buf x
  | .message slot =>
      op.slot algos .sending tran = some slot ∨ op.takes cfg algos tran = some slot

def Written (cfg : AppConfig) (algos : Nat → Option MscclAlgorithm) (op : Op)
    (tran : MscclTransfer) : Loc → Prop
  | .cell gpu buf x => gpu = op.gpu ∧ tran.Writes cfg buf x
  | .message slot => op.slot algos .sending tran = some slot

theorem ext_get {s t : SeqState} (h : ∀ l, s.get l = t.get l) : s = t := by
  obtain ⟨memory, message⟩ := s
  obtain ⟨memory', message'⟩ := t
  congr 1
  · funext gpu buf x
    exact Sum.inl.inj (h (.cell gpu buf x))
  · funext slot
    exact Sum.inr.inj (h (.message slot))

@[simp] theorem setMemory_message (s : SeqState) (op : Op) (m : Memory) :
    (s.setMemory op m).message = s.message := rfl

@[simp] theorem setMemory_self (s : SeqState) (op : Op) (m : Memory) :
    (s.setMemory op m).memory op.gpu = m := Function.update_self ..

theorem setMemory_of_ne (s : SeqState) (op : Op) (m : Memory) {gpu : Nat} (h : gpu ≠ op.gpu) :
    (s.setMemory op m).memory gpu = s.memory gpu := Function.update_of_ne h ..

@[simp] theorem receive_message (s : SeqState) (kind : RecvOp) :
    (s.receive cfg algos op tran kind).message = s.message := by
  rw [receive]
  split <;> rfl

theorem transfer_memory_of_not (s : SeqState) {gpu : Nat} {buf : BufferType} {x : Nat}
    (h : ¬ (gpu = op.gpu ∧ tran.Writes cfg buf x)) :
    (s.transfer cfg algos op tran).memory gpu buf x = s.memory gpu buf x := by
  by_cases hgpu : gpu = op.gpu
  · subst hgpu
    have hwrites : ¬ tran.Writes cfg buf x := fun hw => h ⟨rfl, hw⟩
    rw [MscclTransfer.Writes] at hwrites
    rw [transfer]
    cases htype : tran.type with
    | send => simp only; split <;> rfl
    | recv | recvReduceCopy =>
        simp only [htype] at hwrites
        simp only [receive]
        split
        · rw [setMemory_self]
          exact MscclTransfer.receive_of_not_has (List.length_take_le _ _) _ hwrites
        · rfl
    | localCopy =>
        simp only [htype] at hwrites
        rw [setMemory_self]
        have hlen := Memory.read_length (s.memory op.gpu) (tran.source cfg)
        exact Memory.write_of_not_has (r := tran.target cfg) _ (Nat.le_of_eq hlen) hwrites
    | _ => rfl
  · rw [transfer]
    cases htype : tran.type with
    | send => simp only; split <;> rfl
    | recv | recvReduceCopy =>
        simp only [receive]
        split
        · rw [setMemory_of_ne _ _ _ hgpu]
        · rfl
    | localCopy => simp only [setMemory_of_ne _ _ _ hgpu]
    | _ => rfl

theorem transfer_message (s : SeqState) (slot : Slot) :
    (s.transfer cfg algos op tran).message slot =
      if op.slot algos .sending tran = some slot then (s.memory op.gpu).read (tran.source cfg)
      else s.message slot := by
  have hother (h : tran.type ≠ .send) : op.slot algos .sending tran ≠ some slot := by
    intro hsome
    exact h (Side.has_sending (Op.slot_eq_some.mp hsome).1.1)
  rw [transfer]
  cases htype : tran.type with
  | send =>
      cases hslot : op.slot algos .sending tran with
      | none => simp
      | some slot' =>
          by_cases heq : slot' = slot
          · subst heq
            simp
          · have hne : slot ≠ slot' := Ne.symm heq
            simp [heq, hne]
  | recv | recvReduceCopy => rw [if_neg (hother (by simp [htype])), receive_message]
  | localCopy =>
      rw [if_neg (hother (by simp [htype]))]
      rfl
  | _ => rw [if_neg (hother (by simp [htype]))]

theorem transfer_memory_congr {s t : SeqState}
    (hcell : ∀ buf x, tran.Touches cfg buf x → s.memory op.gpu buf x = t.memory op.gpu buf x)
    (hmessage : ∀ slot, op.takes cfg algos tran = some slot → s.message slot = t.message slot)
    {buf : BufferType} {x : Nat} (hx : tran.Writes cfg buf x) :
    (s.transfer cfg algos op tran).memory op.gpu buf x =
      (t.transfer cfg algos op tran).memory op.gpu buf x := by
  have hold := hcell buf x (Or.inr hx)
  have hreceive (kind : RecvOp) (hkind : kind = .recvReduceCopy → tran.type = .recvReduceCopy) :
      (s.receive cfg algos op tran kind).memory op.gpu buf x =
        (t.receive cfg algos op tran kind).memory op.gpu buf x := by
    rw [receive, receive]
    cases htakes : op.takes cfg algos tran with
    | none => exact hold
    | some slot =>
        simp only [setMemory_self]
        rw [hmessage slot htakes, PostedRecv.receive_eq, PostedRecv.receive_eq,
          PostedRecv.landing_congr (t.memory op.gpu)]
        · exact Memory.write_cell hold _ _ _
        · intro hop
          apply Memory.read_congr
          intro buf' x' hx'
          apply hcell buf' x'
          left
          rw [MscclTransfer.Reads, hkind hop]
          exact ⟨hx'.1, hx'.2.1, Nat.lt_of_lt_of_le hx'.2.2
            (Nat.add_le_add_left (List.length_take_le _ _) _)⟩
  rw [transfer, transfer]
  cases htype : tran.type with
  | recv => exact hreceive .recv (by simp)
  | recvReduceCopy => exact hreceive .recvReduceCopy fun _ => htype
  | localCopy =>
      have hread : (s.memory op.gpu).read (tran.source cfg) =
          (t.memory op.gpu).read (tran.source cfg) := by
        apply Memory.read_congr
        intro buf' x' hx'
        apply hcell buf' x'
        left
        rw [MscclTransfer.Reads, htype]
        exact hx'
      simp only [setMemory_self, hread]
      exact Memory.write_cell hold _ _ _
  | _ =>
      rw [MscclTransfer.Writes, htype] at hx
      exact False.elim hx

theorem transfer_local (cfg : AppConfig) (algos : Nat → Option MscclAlgorithm) (op : Op)
    (tran : MscclTransfer) :
    Local get (Touched cfg algos op tran) (Written cfg algos op tran)
      (transfer cfg algos op tran) where
  frame s l h := by
    cases l with
    | cell gpu buf x => exact congrArg Sum.inl (transfer_memory_of_not s h)
    | message slot =>
        have hslot : op.slot algos .sending tran ≠ some slot := h
        rw [get, transfer_message, if_neg hslot]
        rfl
  depends s t h l hl := by
    have hcell (buf : BufferType) (x : Nat) (hx : tran.Touches cfg buf x) :
        s.memory op.gpu buf x = t.memory op.gpu buf x :=
      Sum.inl.inj (h (.cell op.gpu buf x) ⟨rfl, hx⟩)
    cases l with
    | cell gpu buf x =>
        obtain ⟨rfl, hx⟩ := hl
        apply congrArg Sum.inl
        apply transfer_memory_congr hcell _ hx
        intro slot hslot
        exact Sum.inr.inj (h (.message slot) (Or.inr hslot))
    | message slot =>
        have hslot : op.slot algos .sending tran = some slot := hl
        rw [get, get, transfer_message, transfer_message, if_pos hslot, if_pos hslot]
        apply congrArg Sum.inr
        apply Memory.read_congr
        intro buf x hx
        apply hcell buf x
        left
        rw [MscclTransfer.Reads, Side.has_sending (Op.slot_eq_some.mp hslot).1.1]
        exact hx

end SeqState

/-! ### Any two orders -/

theorem Side.index_lt {side : Side} {tb : MscclThreadBlock} {i j : Nat}
    (htran : tb.transfers[i]? = some tran) (hhas : side.Has tran.type = true) (hij : i < j) :
    side.index tb i < side.index tb j := by
  have hnext : side.index tb (i + 1) = side.index tb i + 1 := by
    rw [index, index, List.take_add_one, htran, List.countP_append]
    simp [hhas]
  have hmono : side.index tb (i + 1) ≤ side.index tb j :=
    (List.take_sublist_take_left hij).countP_le
  omega

theorem Op.uses {side : Side} {slot : Slot} {algo : MscclAlgorithm}
    (halgo : algos op.gpu = some algo) (htran : op.transfer algos = some tran)
    (hslot : op.slot algos side tran = some slot) :
    side.Uses algos slot.conn op.gpu op.bid algo := by
  obtain ⟨algo', halgo', hbid, htb, hget⟩ := Op.transfer_eq_some.mp htran
  obtain rfl := Option.some_inj.mp (halgo.symm.trans halgo')
  obtain ⟨⟨hhas, hpeer⟩, rfl⟩ := Op.slot_eq_some.mp hslot
  rw [htb] at hpeer
  exact ⟨halgo, hbid, by rw [htb], hpeer, tran, List.mem_of_getElem? hget, hhas⟩

theorem Paired.eq_of_slot {counts : ConnId → List Nat} (h : Paired algos counts) {side : Side}
    {a b : Op} {tran tran' : MscclTransfer} {slot : Slot} (ha : a.transfer algos = some tran)
    (hb : b.transfer algos = some tran') (hslot : a.slot algos side tran = some slot)
    (hslot' : b.slot algos side tran' = some slot) : a = b := by
  obtain ⟨algo, halgo, -, htb, hget⟩ := Op.transfer_eq_some.mp ha
  obtain ⟨algo', halgo', -, htb', hget'⟩ := Op.transfer_eq_some.mp hb
  obtain ⟨hgpu, hbid⟩ := h.unique side slot.conn _ _ _ _ _ _ (a.uses halgo ha hslot)
    (b.uses halgo' hb hslot')
  obtain ⟨⟨hhas, -⟩, rfl⟩ := Op.slot_eq_some.mp hslot
  obtain ⟨⟨hhas', -⟩, heq⟩ := Op.slot_eq_some.mp hslot'
  have hindex := congrArg Slot.index heq
  rw [← htb] at hget
  rw [← htb'] at hget'
  have htbs : b.tb algos = a.tb algos := by
    rw [Op.tb, Op.tb, hgpu, hbid]
  rw [htbs] at hget' hindex
  have hsid : a.sid = b.sid := by
    rcases Nat.lt_trichotomy a.sid b.sid with hlt | heq | hlt
    · exact absurd hindex.symm (Nat.ne_of_lt (Side.index_lt hget hhas hlt))
    · exact heq
    · exact absurd hindex (Nat.ne_of_lt (Side.index_lt hget' hhas' hlt))
  obtain ⟨gpu, bid, sid⟩ := a
  cases hgpu
  cases hbid
  cases hsid
  rfl

variable {root : XmlNode} {counts : ConnId → List Nat}

theorem not_touched_of_written (hpaired : Paired algos counts)
    (hordered : ConflictsOrdered cfg root algos) {a b : Op} {tran tran' : MscclTransfer}
    (ha : a.transfer algos = some tran) (hb : b.transfer algos = some tran') (hne : a ≠ b)
    (hab : ¬ Op.Before cfg root algos a b) (hba : ¬ Op.Before cfg root algos b a)
    (l : SeqState.Loc) (hl : SeqState.Written cfg algos a tran l) :
    ¬ SeqState.Touched cfg algos b tran' l := by
  intro hl'
  cases l with
  | cell gpu buf x =>
      obtain ⟨rfl, hwrites⟩ := hl
      obtain ⟨hgpu, htouches⟩ := hl'
      rcases hordered a b tran tran' hgpu hne ha hb ⟨buf, x, hwrites, htouches⟩ with h | h
      · exact hab (Relation.TransGen.mono (fun _ _ => .inner) _ _ h)
      · exact hba (Relation.TransGen.mono (fun _ _ => .inner) _ _ h)
  | message slot =>
      rcases hl' with hslot | htake
      · exact hne (hpaired.eq_of_slot ha hb hl hslot)
      · exact hab (.single (.message ha hb hl htake))

theorem SeqState.exec_comm (hpaired : Paired algos counts)
    (hordered : ConflictsOrdered cfg root algos) {a b : Op}
    (hab : ¬ Op.Before cfg root algos a b) (hba : ¬ Op.Before cfg root algos b a) (s : SeqState) :
    (s.exec cfg algos a).exec cfg algos b = (s.exec cfg algos b).exec cfg algos a := by
  by_cases hne : a = b
  · rw [hne]
  · cases ha : a.transfer algos with
    | none => simp only [exec, ha]
    | some tran =>
        cases hb : b.transfer algos with
        | none => simp only [exec, hb]
        | some tran' =>
            simp only [exec, ha, hb]
            apply Local.comm (transfer_local cfg algos a tran) (transfer_local cfg algos b tran')
            · exact fun _ _ => ext_get
            · intro l hl
              cases l with
              | cell gpu buf x => exact ⟨hl.1, Or.inr hl.2⟩
              | message slot => exact Or.inl hl
            · exact not_touched_of_written hpaired hordered ha hb hne hab hba
            · exact not_touched_of_written hpaired hordered hb ha (Ne.symm hne) hba hab

/-- All orders give the same result. -/
theorem IsOrder.foldl_eq (hpaired : Paired algos counts)
    (hordered : ConflictsOrdered cfg root algos) {order order' : List Op}
    (h : IsOrder cfg root algos order) (h' : IsOrder cfg root algos order') (s : SeqState) :
    order.foldl (SeqState.exec cfg algos) s = order'.foldl (SeqState.exec cfg algos) s := by
  have hperm : order.Perm order' := by
    apply (List.perm_ext_iff_of_nodup h.nodup h'.nodup).mpr
    intro op
    rw [h.mem, h'.mem]
  apply Extends.foldl_eq hperm h.respects h'.respects
  intro a _ b _ hab hba
  exact SeqState.exec_comm hpaired hordered hab hba

end

end CollectiveSim.Msccl
