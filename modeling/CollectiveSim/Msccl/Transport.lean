import CollectiveSim.Msccl.History

/-!
# Bytes under way

The bytes of a connection in the order of its messages: first those that receives have taken, then what
the receiver holds, the fragments on the wire, and what the sender has still to emit.
-/

namespace CollectiveSim.Msccl

open Framework Interpreter

/-- The bytes of the `k`-th message of a connection. -/
def msgSize (cfg : AppConfig) (counts : ConnId → List Nat) (c : ConnId) (k : Nat) : Nat :=
  cfg.bytes ((counts c)[k]?.getD 0)

/-- The bytes of the first `n` messages. -/
def bytesBefore (cfg : AppConfig) (counts : ConnId → List Nat) (c : ConnId) (n : Nat) : Nat :=
  ((List.range n).map (msgSize cfg counts c)).sum

section

variable {cfg : AppConfig} {counts : ConnId → List Nat} {c : ConnId} {n k : Nat}

theorem bytesBefore_succ (cfg : AppConfig) (counts : ConnId → List Nat) (c : ConnId) (n : Nat) :
    bytesBefore cfg counts c (n + 1) = bytesBefore cfg counts c n + msgSize cfg counts c n := by
  simp [bytesBefore, List.range_succ]

theorem bytesBefore_mono (h : k ≤ n) : bytesBefore cfg counts c k ≤ bytesBefore cfg counts c n := by
  induction h with
  | refl => exact Nat.le_refl _
  | step _ ih =>
      rw [bytesBefore_succ]
      omega

namespace SeqState

/-- The first `n` messages of the connection on end. -/
def stream (T : SeqState) (c : ConnId) (n : Nat) : List UInt8 :=
  (List.range n).flatMap fun k => T.message ⟨c, k⟩

variable {T T' : SeqState}

theorem stream_succ (T : SeqState) (c : ConnId) (n : Nat) :
    T.stream c (n + 1) = T.stream c n ++ T.message ⟨c, n⟩ := by
  simp [stream, List.range_succ]

theorem stream_congr (h : ∀ k < n, T'.message ⟨c, k⟩ = T.message ⟨c, k⟩) :
    T'.stream c n = T.stream c n := by
  induction n with
  | zero => rfl
  | succ n ih =>
      rw [stream_succ, stream_succ, h n (Nat.lt_succ_self n),
        ih fun k hk => h k (Nat.lt_succ_of_lt hk)]

/-- Every message has the bytes that the document gives it. -/
def Sized (cfg : AppConfig) (counts : ConnId → List Nat) (T : SeqState) (c : ConnId) (n : Nat) : Prop :=
  ∀ k < n, (T.message ⟨c, k⟩).length = msgSize cfg counts c k

theorem Sized.stream_length (h : T.Sized cfg counts c n) :
    (T.stream c n).length = bytesBefore cfg counts c n := by
  induction n with
  | zero => rfl
  | succ n ih =>
      rw [stream_succ, List.length_append, bytesBefore_succ, h n (Nat.lt_succ_self n),
        ih fun k hk => h k (Nat.lt_succ_of_lt hk)]

theorem stream_eq_append (T : SeqState) (c : ConnId) (h : k < n) :
    ∃ rest, T.stream c n = T.stream c k ++ (T.message ⟨c, k⟩ ++ rest) := by
  induction h with
  | refl => exact ⟨[], by rw [stream_succ, List.append_nil]⟩
  | @step n _ ih =>
      obtain ⟨rest, hrest⟩ := ih
      refine ⟨rest ++ T.message ⟨c, n⟩, ?_⟩
      rw [stream_succ, hrest]
      simp

theorem Sized.succ (h : T.Sized cfg counts c n)
    (hfront : ∀ k < n, T'.message ⟨c, k⟩ = T.message ⟨c, k⟩)
    (hlast : (T'.message ⟨c, n⟩).length = msgSize cfg counts c n) :
    T'.Sized cfg counts c (n + 1) := by
  intro k hk
  rcases Nat.lt_or_eq_of_le (Nat.le_of_lt_succ hk) with hlt | rfl
  · rw [hfront k hlt]
    exact h k hlt
  · exact hlast

theorem Sized.eq_message (h : T.Sized cfg counts c n) (hk : k < n) {taken data rest : List UInt8}
    (heq : T.stream c n = taken ++ (data ++ rest))
    (htaken : taken.length = bytesBefore cfg counts c k)
    (hdata : data.length = msgSize cfg counts c k) : data = T.message ⟨c, k⟩ := by
  obtain ⟨rest', hrest⟩ := T.stream_eq_append c hk
  have hfront : T.Sized cfg counts c k := fun j hj => h j (Nat.lt_trans hj hk)
  rw [hrest] at heq
  have hlen : (T.stream c k).length = taken.length := by rw [hfront.stream_length, htaken]
  obtain ⟨-, hback⟩ := List.append_inj heq hlen
  have hlen' : (T.message ⟨c, k⟩).length = data.length := by rw [h k hk, hdata]
  exact (List.append_inj hback hlen').1.symm

theorem Sized.lt_of_taken (h : T.Sized cfg counts c n) {j : Nat} {taken rest : List UInt8}
    (heq : T.stream c n = taken ++ rest) (htaken : bytesBefore cfg counts c j ≤ taken.length)
    (hk : k < j) (hpos : 0 < msgSize cfg counts c k) : k < n := by
  by_contra hge
  have hlen := congrArg List.length heq
  rw [h.stream_length, List.length_append] at hlen
  have hlow : bytesBefore cfg counts c n ≤ bytesBefore cfg counts c k :=
    bytesBefore_mono (Nat.not_lt.mp hge)
  have hhigh : bytesBefore cfg counts c (k + 1) ≤ bytesBefore cfg counts c j := bytesBefore_mono hk
  rw [bytesBefore_succ] at hhigh
  omega

end SeqState

end

/-! ### The two ends -/

/-- The operation of a transfer that receives. -/
def RecvOp.type : RecvOp → TransferType
  | .recv => .recv
  | .recvReduceCopy => .recvReduceCopy

/-- The entry of a receive that has its first bytes. -/
def MscclTransfer.pending (cfg : AppConfig) (tran : MscclTransfer) (bid sid : Nat) (kind : RecvOp)
    (data : List UInt8) : PendingTransfer where
  bid := bid
  sid := sid
  receivedBytes := data.length
  pendingBytes := cfg.bytes tran.count
  op := kind
  dstBuf := tran.dstbuffer
  dstOffset := tran.dstoffset
  scratchBuf := keepBack kind [] data

section

variable (cfg : AppConfig) (algos : Nat → Option MscclAlgorithm) (s : Collective)

/-- The transfer has begun and is not finished. -/
def Collective.Runs (op : Op) : Prop := (s.interp op.gpu).Runs op

/-- A byte that a running receive is about to fill, or has filled already. -/
def Collective.Filling (gpu : Nat) (buf : BufferType) (x : Nat) : Prop :=
  ∃ op tran, op.gpu = gpu ∧ s.Runs op ∧ op.transfer algos = some tran ∧ tran.type = .recv ∧
    tran.Writes cfg buf x

/-- The sender has these bytes to emit. -/
inductive Queued (c : ConnId) : List UInt8 → Prop
  | idle (hqueue : (s.sending c).queue = []) : Queued c []
  | busy {m : Message} {op : Op} {tran : MscclTransfer} (hqueue : (s.sending c).queue = [m])
      (hop : op = ⟨c.sender, m.bid, m.sid⟩) (hruns : s.Runs op)
      (htran : op.transfer algos = some tran) (hon : op.on algos .sending c = true)
      (hsource : m.source = tran.source cfg) (hemitted : m.emitted ≤ m.source.size)
      (hcaptured : ∀ data, m.captured = some data → data.length = m.source.size) :
      Queued c ((m.captured.getD ((s.memory c.sender).read m.source)).drop m.emitted)

/-- The receiver holds these bytes. -/
inductive Held (c : ConnId) : List UInt8 → Prop
  | unclaimed {bytes : List UInt8} (hpeer : s.receiving c = ⟨[], bytes⟩) : Held c bytes
  | pending {op : Op} {tran : MscclTransfer} {kind : RecvOp} {data : List UInt8}
      (hpeer : s.receiving c = ⟨[tran.pending cfg op.bid op.sid kind data], []⟩)
      (hgpu : op.gpu = c.receiver) (hruns : s.Runs op) (htran : op.transfer algos = some tran)
      (hon : op.on algos .receiving c = true) (hkind : tran.type = kind.type)
      (hlt : data.length < cfg.bytes tran.count)
      (hplaced : kind = .recv → (s.memory c.receiver).read
        ⟨tran.dstbuffer, cfg.bufferOffset tran.dstoffset, data.length⟩ = data) : Held c data

/-- All the bytes of the connection are where the counts of settled transfers say. -/
def Linked (counts : ConnId → List Nat) (T : SeqState) (order : List Op) (c : ConnId) : Prop :=
  ∃ taken held unsent, Queued cfg algos s c unsent ∧ Held cfg algos s c held ∧
    taken.length = bytesBefore cfg counts c (order.countP (Op.on algos .receiving c)) ∧
    T.stream c (order.countP (Op.on algos .sending c)) =
      taken ++ (held ++ ((s.sending c).wire.flatten ++ unsent))

end

/-- The transfers outside of `P` run on, and the bytes that they touch stay the same. -/
structure Keeps (cfg : AppConfig) (algos : Nat → Option MscclAlgorithm) (P : Op → Prop)
    (s s' : Collective) : Prop where
  runs : ∀ op, ¬ P op → s.Runs op → s'.Runs op
  memory : ∀ op tran buf x, ¬ P op → s.Runs op → op.transfer algos = some tran →
    tran.Touches cfg buf x → s'.memory op.gpu buf x = s.memory op.gpu buf x

section

variable {cfg : AppConfig} {algos : Nat → Option MscclAlgorithm} {s s' : Collective}
  {P : Op → Prop} {c c' : ConnId} {op u : Op} {tran : MscclTransfer} {side : Side}

theorem Op.on_inj (h : op.on algos side c = true) (h' : op.on algos side c' = true) : c = c' := by
  obtain ⟨tran, htran, slot, hslot, rfl⟩ := Op.on_eq_true.mp h
  obtain ⟨tran', htran', slot', hslot', rfl⟩ := Op.on_eq_true.mp h'
  obtain rfl := Option.some_inj.mp (htran.symm.trans htran')
  obtain rfl := Option.some_inj.mp (hslot.symm.trans hslot')
  rfl

theorem Op.not_on_of_ne (h : op.on algos side c = true) (hne : c' ≠ c) :
    op.on algos side c' = false := by
  rw [Bool.eq_false_iff]
  exact fun hon => hne (Op.on_inj hon h)

theorem Op.has_of_on (htran : op.transfer algos = some tran) (h : op.on algos side c = true) :
    side.Has tran.type = true := by
  obtain ⟨tran', htran', slot, hslot, -⟩ := Op.on_eq_true.mp h
  obtain rfl := Option.some_inj.mp (htran.symm.trans htran')
  exact (Op.slot_eq_some.mp hslot).1.1

theorem RecvOp.type_ne_send (kind : RecvOp) : kind.type ≠ .send := by
  cases kind <;> simp [RecvOp.type]

theorem RecvOp.has_receiving (kind : RecvOp) : Side.receiving.Has kind.type = true := by
  cases kind <;> rfl

theorem Op.not_on_sending (htran : op.transfer algos = some tran) (htype : tran.type ≠ .send)
    (c : ConnId) : op.on algos .sending c = false := by
  rw [Bool.eq_false_iff]
  intro hon
  exact htype (Side.has_sending (Op.has_of_on htran hon))

theorem Op.not_on_receiving (htran : op.transfer algos = some tran) (htype : tran.type = .send)
    (c : ConnId) : op.on algos .receiving c = false := by
  rw [Bool.eq_false_iff]
  intro hon
  have hhas := Op.has_of_on htran hon
  rw [htype] at hhas
  cases hhas

theorem MscclTransfer.touches_source (htype : tran.type = .send) {buf : BufferType} {x : Nat}
    (h : (tran.source cfg).Has buf x) : tran.Touches cfg buf x := by
  left
  rw [MscclTransfer.Reads, htype]
  exact h

theorem MscclTransfer.writes_target {kind : RecvOp} (htype : tran.type = kind.type)
    {buf : BufferType} {x : Nat} : tran.Writes cfg buf x ↔ (tran.target cfg).Has buf x := by
  rw [MscclTransfer.Writes, htype]
  cases kind <;> rfl

theorem Queued.keep {bytes : List UInt8} (h : Queued cfg algos s c bytes)
    (hkeeps : Keeps cfg algos P s s') (hP : ∀ op, P op → op.on algos .sending c = false)
    (hqueue' : (s'.sending c).queue = (s.sending c).queue) : Queued cfg algos s' c bytes := by
  cases h with
  | idle hqueue => exact .idle (hqueue'.trans hqueue)
  | @busy m op tran hqueue hop hruns htran hon hsource hemitted hcaptured =>
      have hnot : ¬ P op := by
        intro hp
        rw [hP op hp] at hon
        cases hon
      have hsend := Side.has_sending (Op.has_of_on htran hon)
      have hread : (s'.memory c.sender).read m.source = (s.memory c.sender).read m.source := by
        apply Memory.read_congr
        intro buf x hx
        have hgpu : op.gpu = c.sender := by rw [hop]
        rw [← hgpu]
        rw [hsource] at hx
        exact hkeeps.memory op tran buf x hnot hruns htran (tran.touches_source hsend hx)
      rw [← hread]
      exact .busy (hqueue'.trans hqueue) hop (hkeeps.runs op hnot hruns) htran hon hsource hemitted
        hcaptured

theorem Held.keep {bytes : List UInt8} (h : Held cfg algos s c bytes)
    (hkeeps : Keeps cfg algos P s s') (hP : ∀ op, P op → op.on algos .receiving c = false)
    (hpeer' : s'.receiving c = s.receiving c) : Held cfg algos s' c bytes := by
  cases h with
  | unclaimed hpeer => exact .unclaimed (hpeer'.trans hpeer)
  | @pending op tran kind _ hpeer hgpu hruns htran hon hkind hlt hplaced =>
      have hnot : ¬ P op := by
        intro hp
        rw [hP op hp] at hon
        cases hon
      refine .pending (hpeer'.trans hpeer) hgpu (hkeeps.runs op hnot hruns) htran hon hkind hlt ?_
      intro hrecv
      refine Eq.trans ?_ (hplaced hrecv)
      apply Memory.read_congr
      intro buf x hx
      rw [← hgpu]
      apply hkeeps.memory op tran buf x hnot hruns htran
      right
      rw [MscclTransfer.writes_target hkind]
      exact ⟨hx.1, hx.2.1, Nat.lt_trans hx.2.2 (Nat.add_lt_add_left hlt _)⟩

theorem Linked.keep {counts : ConnId → List Nat} {T T' : SeqState} {order order' : List Op}
    (h : Linked cfg algos s counts T order c) (hkeeps : Keeps cfg algos P s s')
    (hP : ∀ op, P op → ∀ side, op.on algos side c = false)
    (hsending : s'.sending c = s.sending c) (hreceiving : s'.receiving c = s.receiving c)
    (hcount : ∀ side, order'.countP (Op.on algos side c) = order.countP (Op.on algos side c))
    (hmessage : ∀ k, T'.message ⟨c, k⟩ = T.message ⟨c, k⟩) :
    Linked cfg algos s' counts T' order' c := by
  obtain ⟨taken, held, unsent, hqueued, hheld, htaken, hstream⟩ := h
  refine ⟨taken, held, unsent, ?_, ?_, ?_, ?_⟩
  · exact hqueued.keep hkeeps (fun op hp => hP op hp .sending) (by rw [hsending])
  · exact hheld.keep hkeeps (fun op hp => hP op hp .receiving) hreceiving
  · rw [hcount]
    exact htaken
  · rw [hcount, hsending, SeqState.stream_congr fun k _ => hmessage k]
    exact hstream

end

/-! ### What the two receiving calls leave behind -/

/-- The bytes of the transfer are in their destination, copied or added, and nothing else has
changed. -/
structure Landed (cfg : AppConfig) (tran : MscclTransfer) (kind : RecvOp) (data : List UInt8)
    (m m' : Memory) : Prop where
  frame : ∀ buf x, ¬ (tran.target cfg).Has buf x → m' buf x = m buf x
  read : m'.read (tran.target cfg) = (tran.posted 0 0 kind).landing cfg data m

/-- The first bytes of the transfer: a copy has them in place, a reduction has changed nothing. -/
structure Placed (cfg : AppConfig) (tran : MscclTransfer) (kind : RecvOp) (data : List UInt8)
    (m m' : Memory) : Prop where
  frame : ∀ buf x, ¬ (tran.target cfg).Has buf x → m' buf x = m buf x
  read : kind = .recv →
    m'.read ⟨tran.dstbuffer, cfg.bufferOffset tran.dstoffset, data.length⟩ = data
  same : kind = .recvReduceCopy → m' = m

section

variable {cfg : AppConfig} {gpu bid sid : Nat} {tran : MscclTransfer} {kind : RecvOp}
  {data payload : List UInt8} {m m' : Memory} {r : RecvResult}

theorem MscclTransfer.write_of_not_has (hle : data.length + payload.length ≤ cfg.bytes tran.count)
    (m : Memory) {buf : BufferType} {x : Nat} (hx : ¬ (tran.target cfg).Has buf x) :
    m.write tran.dstbuffer (cfg.bufferOffset tran.dstoffset + data.length) payload buf x =
      m buf x := by
  apply Memory.write_of_not_has
    (r := ⟨tran.dstbuffer, cfg.bufferOffset tran.dstoffset + data.length, payload.length⟩) m
    (Nat.le_refl _)
  rintro ⟨rfl, hlo, hhi⟩
  simp only at hlo hhi
  refine hx ⟨rfl, ?_, ?_⟩
  · simp only [MscclTransfer.target]
    omega
  · simp only [MscclTransfer.target]
    omega

theorem Landed.of_copy (hlen : data.length + payload.length = cfg.bytes tran.count)
    (hread : m.read ⟨tran.dstbuffer, cfg.bufferOffset tran.dstoffset, data.length⟩ = data) :
    Landed cfg tran .recv (data ++ payload) m
      (m.write tran.dstbuffer (cfg.bufferOffset tran.dstoffset + data.length) payload) := by
  constructor
  · intro buf x hx
    exact MscclTransfer.write_of_not_has (Nat.le_of_eq hlen) m hx
  · have happend := readRange_writeRange_append (m tran.dstbuffer)
      (cfg.bufferOffset tran.dstoffset) data.length payload
    rw [hlen] at happend
    rw [Memory.read] at hread ⊢
    simp only [MscclTransfer.target, Memory.write, Function.update_self]
    rw [happend, hread]
    rfl

theorem Landed.of_receive (hlen : data.length = cfg.bytes tran.count) :
    Landed cfg tran kind data m ((tran.posted 0 0 kind).receive cfg data m) where
  frame buf x hx := MscclTransfer.receive_of_not_has (Nat.le_of_eq hlen) m hx
  read := by
    rw [PostedRecv.receive_eq]
    apply Region.read_write (r := tran.target cfg)
    rw [PostedRecv.landing_length, hlen]
    rfl

theorem Landed.of_placeStaged {unclaimed : List UInt8} (hlen : data.length = cfg.bytes tran.count)
    (hnil : unclaimed = [] → data = [])
    (h : placeStaged cfg gpu kind tran.dstbuffer tran.dstoffset unclaimed data m = some m') :
    Landed cfg tran kind data m m' := by
  have hreceive : (tran.posted 0 0 kind).receive cfg data m = m' := by
    rw [placeStaged] at h
    split at h
    · next hempty =>
        rw [hnil hempty, PostedRecv.receive_nil]
        exact Option.some_inj.mp h
    · cases kind with
      | recv =>
          simp only [stageBytes, reduceStaged, Option.bind_eq_bind, Option.bind_eq_some_iff] at h
          obtain ⟨m₁, ⟨dst, hptr, hm₁⟩, hm'⟩ := h
          obtain rfl := AppConfig.getBufferPtr_eq_some cfg hptr
          cases hm₁
          exact Option.some_inj.mp hm'
      | recvReduceCopy =>
          simp only [stageBytes, reduceStaged, Option.bind_eq_bind, Option.bind_some,
            Option.bind_eq_some_iff] at h
          obtain ⟨dst, hptr, hm'⟩ := h
          obtain rfl := AppConfig.getBufferPtr_eq_some cfg hptr
          exact Option.some_inj.mp hm'
  rw [← hreceive]
  exact Landed.of_receive hlen

theorem Placed.of_copy (hle : data.length + payload.length ≤ cfg.bytes tran.count)
    (hread : m.read ⟨tran.dstbuffer, cfg.bufferOffset tran.dstoffset, data.length⟩ = data) :
    Placed cfg tran .recv (data ++ payload) m
      (m.write tran.dstbuffer (cfg.bufferOffset tran.dstoffset + data.length) payload) where
  frame buf x hx := MscclTransfer.write_of_not_has hle m hx
  read _ := by
    have happend := readRange_writeRange_append (m tran.dstbuffer)
      (cfg.bufferOffset tran.dstoffset) data.length payload
    rw [Memory.read] at hread ⊢
    simp only [Memory.write, Function.update_self, List.length_append]
    rw [happend, hread]
  same h := by cases h

theorem Placed.of_reduce (data : List UInt8) (m : Memory) :
    Placed cfg tran .recvReduceCopy data m m where
  frame _ _ _ := rfl
  read h := by cases h
  same _ := rfl

theorem onBytesArrived_unclaimed {bytes : List UInt8}
    (h : onBytesArrivedFromPeer cfg gpu payload m ⟨[], bytes⟩ = some r) :
    r.memory = m ∧ r.peer = ⟨[], bytes ++ payload⟩ ∧ r.completed = none := by
  rw [onBytesArrivedFromPeer] at h
  simp only at h
  split at h
  · cases h
    exact ⟨rfl, rfl, rfl⟩
  · cases h

theorem onBytesArrived_pending
    (hread : kind = .recv →
      m.read ⟨tran.dstbuffer, cfg.bufferOffset tran.dstoffset, data.length⟩ = data)
    (h : onBytesArrivedFromPeer cfg gpu payload m ⟨[tran.pending cfg bid sid kind data], []⟩ =
      some r) :
    (data.length + payload.length < cfg.bytes tran.count ∧ r.completed = none ∧
      r.peer = ⟨[tran.pending cfg bid sid kind (data ++ payload)], []⟩ ∧
      Placed cfg tran kind (data ++ payload) m r.memory) ∨
    (data.length + payload.length = cfg.bytes tran.count ∧ r.completed = some (bid, sid) ∧
      r.peer = ⟨[], []⟩ ∧ Landed cfg tran kind (data ++ payload) m r.memory) := by
  have hnext : { tran.pending cfg bid sid kind data with
        receivedBytes := data.length + payload.length
        scratchBuf := keepBack kind (keepBack kind [] data) payload } =
      tran.pending cfg bid sid kind (data ++ payload) := by
    simp [MscclTransfer.pending, PostedRecv.keepBack_append]
  rw [onBytesArrivedFromPeer] at h
  simp only [Option.bind_eq_bind, Option.bind_eq_some_iff] at h
  obtain ⟨m₁, hstage, h⟩ := h
  have hstage' : stageBytes cfg gpu kind tran.dstbuffer tran.dstoffset data.length payload m =
    some m₁ := hstage
  cases kind with
  | recv =>
      simp only [stageBytes, Option.bind_eq_bind, Option.bind_eq_some_iff] at hstage'
      obtain ⟨dst, hptr, hm₁⟩ := hstage'
      obtain rfl := AppConfig.getBufferPtr_eq_some cfg hptr
      cases hm₁
      split at h
      · rename_i hlt
        cases h
        exact Or.inl ⟨hlt, rfl, congrArg (fun pt => PeerRecv.mk [pt] []) hnext,
          Placed.of_copy (Nat.le_of_lt hlt) (hread rfl)⟩
      split at h
      · cases h
      · rename_i hlt hgt
        have hlen : data.length + payload.length = cfg.bytes tran.count :=
          Nat.le_antisymm (Nat.not_lt.mp hgt) (Nat.not_lt.mp hlt)
        cases h
        exact Or.inr ⟨hlen, rfl, rfl, Landed.of_copy hlen (hread rfl)⟩
  | recvReduceCopy =>
      cases hstage'
      split at h
      · rename_i hlt
        cases h
        exact Or.inl ⟨hlt, rfl, congrArg (fun pt => PeerRecv.mk [pt] []) hnext,
          Placed.of_reduce _ _⟩
      split at h
      · cases h
      · rename_i hlt hgt
        have hlen : data.length + payload.length = cfg.bytes tran.count :=
          Nat.le_antisymm (Nat.not_lt.mp hgt) (Nat.not_lt.mp hlt)
        obtain ⟨m₂, hreduce, h⟩ := Option.bind_eq_some_iff.mp h
        have hreduce' : reduceStaged cfg gpu .recvReduceCopy tran.dstbuffer tran.dstoffset
          (data ++ payload) m = some m₂ := hreduce
        simp only [reduceStaged, Option.bind_eq_bind, Option.bind_eq_some_iff] at hreduce'
        obtain ⟨dst, hptr, hm₂⟩ := hreduce'
        obtain rfl := AppConfig.getBufferPtr_eq_some cfg hptr
        cases hm₂
        cases h
        refine Or.inr ⟨hlen, rfl, rfl, ?_⟩
        exact Landed.of_receive (by rw [List.length_append, hlen])

/-- A receive that finds its bytes, or is left pending with those that were there. -/
theorem claimOrRegister_cases {unclaimed : List UInt8}
    (h : claimOrRegisterPendingRecv cfg gpu bid sid (cfg.bytes tran.count) tran.dstbuffer
      tran.dstoffset kind m ⟨[], unclaimed⟩ = some r) :
    (unclaimed.length < cfg.bytes tran.count ∧ r.completed = none ∧
      r.peer = ⟨[tran.pending cfg bid sid kind unclaimed], []⟩ ∧
      Placed cfg tran kind unclaimed m r.memory) ∨
    (cfg.bytes tran.count ≤ unclaimed.length ∧ r.completed = some (bid, sid) ∧
      r.peer = ⟨[], unclaimed.drop (cfg.bytes tran.count)⟩ ∧
      Landed cfg tran kind (unclaimed.take (cfg.bytes tran.count)) m r.memory) := by
  have hnil : m.read ⟨tran.dstbuffer, cfg.bufferOffset tran.dstoffset, ([] : List UInt8).length⟩ =
      [] := rfl
  rw [claimOrRegisterPendingRecv] at h
  simp only at h
  split at h
  · cases h
  split at h
  · rename_i hle
    have hlen : (unclaimed.take (cfg.bytes tran.count)).length = cfg.bytes tran.count :=
      List.length_take_of_le hle
    obtain ⟨m₁, hplace, h⟩ := Option.bind_eq_some_iff.mp h
    cases h
    refine Or.inr ⟨hle, rfl, rfl, Landed.of_placeStaged hlen (fun hnil => ?_) hplace⟩
    rw [hnil, List.take_nil]
  · rename_i hlt
    left
    split at h
    · simp only [Option.bind_eq_bind, Option.bind_eq_some_iff] at h
      obtain ⟨m₁, hstage, h⟩ := h
      cases h
      refine ⟨Nat.not_le.mp hlt, rfl, rfl, ?_⟩
      cases kind with
      | recv =>
          simp only [stageBytes, Option.bind_eq_bind, Option.bind_eq_some_iff] at hstage
          obtain ⟨dst, hptr, hm₁⟩ := hstage
          obtain rfl := AppConfig.getBufferPtr_eq_some cfg hptr
          cases hm₁
          have hle : ([] : List UInt8).length + unclaimed.length ≤ cfg.bytes tran.count := by
            rw [List.length_nil, Nat.zero_add]
            exact Nat.le_of_lt (Nat.not_le.mp hlt)
          exact Placed.of_copy hle hnil
      | recvReduceCopy =>
          cases hstage
          exact Placed.of_reduce _ _
    · rename_i hempty
      have hempty' : unclaimed = [] := List.length_eq_zero_iff.mp (by omega)
      subst hempty'
      cases h
      refine ⟨Nat.not_le.mp hlt, rfl, ?_, fun _ _ _ => rfl, fun _ => rfl, fun _ => rfl⟩
      cases kind <;> rfl

end

end CollectiveSim.Msccl
