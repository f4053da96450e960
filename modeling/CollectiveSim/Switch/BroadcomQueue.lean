import CollectiveSim.Framework.Ledger
import CollectiveSim.Framework.RoundRobin
import CollectiveSim.Framework.Run
import CollectiveSim.Switch.EgressQueue

/-!
# The queue of a port with its counters

`BEgressQueue` and each `SimpleDropTailQueue` under it count their bytes and packets on their own. The
outer one does not look at what the inner one answers, and its own `m_nBytes` and `m_nPackets`, which
hide those of `PacketQueue`, are never set by the constructor.
-/

namespace CollectiveSim.Switch

open Framework

/-- `SimpleDropTailQueue::QueueMode`. -/
inductive QueueMode
  | packets
  | bytes
  deriving DecidableEq

/-- The attributes of `BEgressQueue` and of the queues under it. `MaxBytes` of the first is a double;
`maxBytes` is the first integer that is not below it. -/
structure BroadcomConfig where
  maxBytes : Nat
  mode : QueueMode
  subMaxPackets : Nat
  subMaxBytes : Nat

/-- The defaults of the attributes. -/
def BroadcomConfig.default : BroadcomConfig where
  maxBytes := 1000 * 1024 * 1024
  mode := .bytes
  subMaxPackets := 100
  subMaxBytes := 30000 * 65535

/-- `SimpleDropTailQueue`, with `m_nBytes` and `m_nPackets` of `PacketQueue`. -/
structure SimpleDropTailQueue (α : Type) where
  packets : List α
  bytesInQueue : Nat
  nBytes : Nat
  nPackets : Nat

/-- The bytes of a list of packets. -/
def bytesOf {α : Type} (size : α → UInt32) (ps : List α) : Nat :=
  (ps.map fun p => (size p).toNat).sum

@[simp] theorem bytesOf_nil {α : Type} (size : α → UInt32) : bytesOf size [] = 0 := rfl

@[simp] theorem bytesOf_cons {α : Type} (size : α → UInt32) (p : α) (ps : List α) :
    bytesOf size (p :: ps) = (size p).toNat + bytesOf size ps := by
  simp [bytesOf]

@[simp] theorem bytesOf_append {α : Type} (size : α → UInt32) (ps ps' : List α) :
    bytesOf size (ps ++ ps') = bytesOf size ps + bytesOf size ps' := by
  simp [bytesOf]

namespace SimpleDropTailQueue

variable {α : Type} (cfg : BroadcomConfig) (size : α → UInt32) (q : SimpleDropTailQueue α) (p : α)

def empty : SimpleDropTailQueue α := ⟨[], 0, 0, 0⟩

/-- The packet is dropped. -/
def Full : Prop :=
  (cfg.mode = .packets ∧ cfg.subMaxPackets ≤ q.packets.length) ∨
    (cfg.mode = .bytes ∧ cfg.subMaxBytes ≤ u32 (q.bytesInQueue + (size p).toNat))

instance : Decidable (q.Full cfg size p) := by
  unfold Full
  infer_instance

/-- `PacketQueue::Enqueue` with `SimpleDropTailQueue::DoEnqueue`. -/
def enqueue : Bool × SimpleDropTailQueue α :=
  if q.Full cfg size p then (false, q)
  else
    (true,
      { packets := q.packets ++ [p]
        bytesInQueue := u32 (q.bytesInQueue + (size p).toNat)
        nBytes := u32 (q.nBytes + (size p).toNat)
        nPackets := u32 (q.nPackets + 1) })

/-- `PacketQueue::Dequeue` with `SimpleDropTailQueue::DoDequeue`; `none` where an assertion fails. -/
def dequeue : Option (Option α × SimpleDropTailQueue α) :=
  match q.packets with
  | [] => some (none, q)
  | p :: rest =>
      if (size p).toNat ≤ q.nBytes ∧ 0 < q.nPackets then
        some (some p,
          { packets := rest
            bytesInQueue := sub32 q.bytesInQueue (size p).toNat
            nBytes := sub32 q.nBytes (size p).toNat
            nPackets := sub32 q.nPackets 1 })
      else none

/-- The counters are those of the contents. -/
structure Counted : Prop where
  bytesInQueue : q.bytesInQueue = bytesOf size q.packets
  nBytes : q.nBytes = bytesOf size q.packets
  nPackets : q.nPackets = q.packets.length

variable {cfg size q p}

theorem counted_empty : (empty : SimpleDropTailQueue α).Counted size := ⟨rfl, rfl, rfl⟩

theorem packets_enqueue (hroom : ¬ q.Full cfg size p) :
    (q.enqueue cfg size p).2.packets = q.packets ++ [p] := by
  rw [enqueue, if_neg hroom]

theorem Counted.enqueue (h : q.Counted size) (hroom : ¬ q.Full cfg size p)
    (hbytes : bytesOf size q.packets + (size p).toNat < 2 ^ 32)
    (hpackets : q.packets.length + 1 < 2 ^ 32) : (q.enqueue cfg size p).2.Counted size := by
  rw [SimpleDropTailQueue.enqueue, if_neg hroom, h.bytesInQueue, h.nBytes, h.nPackets,
    u32_of_lt hbytes, u32_of_lt hpackets]
  constructor
  · simp
  · simp
  · simp

theorem dequeue_bytesInQueue {q' : SimpleDropTailQueue α} (h : q.dequeue size = some (some p, q')) :
    ∃ rest, q.packets = p :: rest ∧ q'.packets = rest ∧
      q'.bytesInQueue = sub32 q.bytesInQueue (size p).toNat := by
  rw [dequeue] at h
  split at h
  · cases h
  next p' rest hpackets =>
    split at h
    · cases h
      exact ⟨rest, hpackets, rfl, rfl⟩
    · cases h

theorem Counted.dequeue (h : q.Counted size) {rest : List α} (hq : q.packets = p :: rest)
    (hbytes : bytesOf size q.packets < 2 ^ 32) (hpackets : q.packets.length < 2 ^ 32) :
    ∃ q', q.dequeue size = some (some p, q') ∧ q'.packets = rest ∧ q'.Counted size := by
  rw [hq, bytesOf_cons] at hbytes
  rw [hq, List.length_cons] at hpackets
  have hnBytes : q.nBytes = (size p).toNat + bytesOf size rest := by rw [h.nBytes, hq, bytesOf_cons]
  have hnPackets : q.nPackets = rest.length + 1 := by rw [h.nPackets, hq, List.length_cons]
  have hinQueue : q.bytesInQueue = (size p).toNat + bytesOf size rest := by
    rw [h.bytesInQueue, hq, bytesOf_cons]
  have hassert : (size p).toNat ≤ (size p).toNat + bytesOf size rest ∧ 0 < rest.length + 1 :=
    ⟨Nat.le_add_right _ _, Nat.succ_pos _⟩
  have hless : sub32 ((size p).toNat + bytesOf size rest) (size p).toNat = bytesOf size rest := by
    rw [sub32_of_le (Nat.le_add_right _ _) hbytes, Nat.add_sub_cancel_left]
  have hfewer : sub32 (rest.length + 1) 1 = rest.length := by
    rw [sub32_of_le (Nat.le_add_left _ _) hpackets, Nat.add_sub_cancel]
  rw [SimpleDropTailQueue.dequeue, hq]
  simp only [hinQueue, hnBytes, hnPackets, if_pos hassert, hless, hfewer]
  exact ⟨_, rfl, rfl, rfl, rfl, rfl⟩

end SimpleDropTailQueue

/-- `BEgressQueue`. -/
structure BEgressQueue (α : Type) where
  queues : Nat → SimpleDropTailQueue α
  bytesInQueue : Nat → Nat
  bytesInQueueTotal : Nat
  rrlast : Nat
  qlast : Nat
  nBytes : Nat
  nPackets : Nat

namespace BEgressQueue

variable {α : Type} (cfg : BroadcomConfig) (size : α → UInt32) (b : BEgressQueue α) (p : α)
  (qIndex : Nat) (paused : Nat → Bool)

/-- The constructor. It leaves `m_nBytes`, `m_nPackets` and `m_qlast` as they are in memory. -/
def constructed (nBytes nPackets qlast : UInt32) : BEgressQueue α where
  queues := fun _ => .empty
  bytesInQueue := fun _ => 0
  bytesInQueueTotal := 0
  rrlast := 0
  qlast := qlast.toNat
  nBytes := nBytes.toNat
  nPackets := nPackets.toNat

def doEnqueue : Bool × BEgressQueue α :=
  if u32 (b.bytesInQueueTotal + (size p).toNat) < cfg.maxBytes then
    (true,
      { b with
        queues := Function.update b.queues qIndex ((b.queues qIndex).enqueue cfg size p).2
        bytesInQueueTotal := u32 (b.bytesInQueueTotal + (size p).toNat)
        bytesInQueue := Function.update b.bytesInQueue qIndex
          (u32 (b.bytesInQueue qIndex + (size p).toNat)) })
  else (false, b)

def enqueue : Bool × BEgressQueue α :=
  let (retval, b) := b.doEnqueue cfg size p qIndex
  if retval then
    (true, { b with nBytes := u32 (b.nBytes + (size p).toNat), nPackets := u32 (b.nPackets + 1) })
  else (false, b)

/-- The queue that `DoDequeueRR` serves. -/
def pick : Option Nat :=
  if 0 < (b.queues 0).nPackets then some 0
  else ((List.range' 1 qCnt).map fun k => u32 (k + b.rrlast) % qCnt).find? fun q =>
    !paused q && decide (0 < (b.queues q).nPackets)

/-- `none` where an assertion fails or the packet is null. -/
def doDequeueRR : Option (Option α × BEgressQueue α) :=
  if b.bytesInQueueTotal = 0 then some (none, b)
  else
    match b.pick paused with
    | none => some (none, b)
    | some q =>
        match (b.queues q).dequeue size with
        | none => none
        | some (none, _) => none
        | some (some p, rest) =>
            some (some p,
              { b with
                queues := Function.update b.queues q rest
                bytesInQueueTotal := sub32 b.bytesInQueueTotal (size p).toNat
                bytesInQueue := Function.update b.bytesInQueue q
                  (sub32 (b.bytesInQueue q) (size p).toNat)
                rrlast := if q ≠ 0 then q else b.rrlast
                qlast := q })

def dequeueRR : Option (Option α × BEgressQueue α) :=
  match b.doDequeueRR size paused with
  | none => none
  | some (none, b) => some (none, b)
  | some (some p, b) =>
      if (size p).toNat ≤ b.nBytes ∧ 0 < b.nPackets then
        some (some p, { b with
          nBytes := sub32 b.nBytes (size p).toNat
          nPackets := sub32 b.nPackets 1 })
      else none

/-- The bytes and packets held. -/
def heldBytes : Nat := ∑ q ∈ Finset.range qCnt, bytesOf size (b.queues q).packets

def heldPackets : Nat := ∑ q ∈ Finset.range qCnt, (b.queues q).packets.length

/-- Every counter is that of the contents. -/
structure Counted : Prop where
  queues : ∀ q, (b.queues q).Counted size
  bytesInQueue : ∀ q, b.bytesInQueue q = bytesOf size (b.queues q).packets
  total : b.bytesInQueueTotal = b.heldBytes size
  nBytes : b.nBytes = b.heldBytes size
  nPackets : b.nPackets = b.heldPackets

/-- The counters fit into their 32 bits. -/
structure Fits : Prop where
  bytes : b.heldBytes size < 2 ^ 32
  packets : b.heldPackets < 2 ^ 32

/-- Nothing may be sent: queue 0 and the queues that are not paused are empty. -/
def Idle : Prop :=
  (b.queues 0).packets = [] ∧
    ∀ q, 1 ≤ q → q < qCnt → paused q = false → (b.queues q).packets = []

variable {cfg size b p qIndex paused}

theorem bytesOf_le (hq : qIndex < qCnt) : bytesOf size (b.queues qIndex).packets ≤ b.heldBytes size :=
  Finset.single_le_sum (f := fun q => bytesOf size (b.queues q).packets)
    (fun _ _ => Nat.zero_le _) (Finset.mem_range.mpr hq)

theorem length_le (hq : qIndex < qCnt) : (b.queues qIndex).packets.length ≤ b.heldPackets :=
  Finset.single_le_sum (f := fun q => (b.queues q).packets.length)
    (fun _ _ => Nat.zero_le _) (Finset.mem_range.mpr hq)

theorem held_update (hq : qIndex < qCnt) {b' : BEgressQueue α} {sub : SimpleDropTailQueue α}
    (h : b'.queues = Function.update b.queues qIndex sub) :
    b'.heldBytes size + bytesOf size (b.queues qIndex).packets =
        b.heldBytes size + bytesOf size sub.packets ∧
      b'.heldPackets + (b.queues qIndex).packets.length = b.heldPackets + sub.packets.length := by
  rw [heldBytes, heldBytes, heldPackets, heldPackets, h]
  constructor
  · exact sum_update_entry (Finset.mem_range.mpr hq)
      (fun q : SimpleDropTailQueue α => bytesOf size q.packets) b.queues sub
  · exact sum_update_entry (Finset.mem_range.mpr hq)
      (fun q : SimpleDropTailQueue α => q.packets.length) b.queues sub

theorem counted_constructed (qlast : UInt32) :
    (constructed 0 0 qlast : BEgressQueue α).Counted size := by
  have hbytes : (constructed 0 0 qlast : BEgressQueue α).heldBytes size = 0 :=
    Finset.sum_eq_zero fun _ _ => rfl
  have hpackets : (constructed 0 0 qlast : BEgressQueue α).heldPackets = 0 :=
    Finset.sum_eq_zero fun _ _ => rfl
  refine ⟨fun _ => SimpleDropTailQueue.counted_empty, fun _ => rfl, ?_, ?_, ?_⟩
  · exact hbytes.symm
  · exact hbytes.symm
  · exact hpackets.symm

theorem counted_update {b' : BEgressQueue α} {sub : SimpleDropTailQueue α}
    (h : ∀ q, (b.queues q).Counted size) (hsub : sub.Counted size)
    (hqueues : b'.queues = Function.update b.queues qIndex sub) (q : Nat) :
    (b'.queues q).Counted size := by
  rw [hqueues]
  by_cases heq : q = qIndex
  · rw [heq, Function.update_self]
    exact hsub
  · rw [Function.update_of_ne heq]
    exact h q

theorem bytesInQueue_update {b' : BEgressQueue α} {sub : SimpleDropTailQueue α} {n : Nat}
    (h : ∀ q, b.bytesInQueue q = bytesOf size (b.queues q).packets)
    (hn : n = bytesOf size sub.packets)
    (hqueues : b'.queues = Function.update b.queues qIndex sub)
    (hbytes : b'.bytesInQueue = Function.update b.bytesInQueue qIndex n) (q : Nat) :
    b'.bytesInQueue q = bytesOf size (b'.queues q).packets := by
  rw [hqueues, hbytes]
  by_cases heq : q = qIndex
  · rw [heq, Function.update_self, Function.update_self]
    exact hn
  · rw [Function.update_of_ne heq, Function.update_of_ne heq]
    exact h q

/-! ### Enqueue -/

/-- The outer queue takes the packet. -/
def Accepts (cfg : BroadcomConfig) (size : α → UInt32) (b : BEgressQueue α) (p : α) : Prop :=
  u32 (b.bytesInQueueTotal + (size p).toNat) < cfg.maxBytes

/-- What the inner queue and the counters need so that they can follow. -/
structure Follows (cfg : BroadcomConfig) (size : α → UInt32) (b : BEgressQueue α) (p : α)
    (qIndex : Nat) : Prop where
  room : ¬ (b.queues qIndex).Full cfg size p
  bytes : b.heldBytes size + (size p).toNat < 2 ^ 32
  packets : b.heldPackets + 1 < 2 ^ 32

/-- The queue after a packet that the outer one takes. -/
def taken (cfg : BroadcomConfig) (size : α → UInt32) (b : BEgressQueue α) (p : α) (qIndex : Nat) :
    BEgressQueue α where
  queues := Function.update b.queues qIndex ((b.queues qIndex).enqueue cfg size p).2
  bytesInQueue := Function.update b.bytesInQueue qIndex
    (u32 (b.bytesInQueue qIndex + (size p).toNat))
  bytesInQueueTotal := u32 (b.bytesInQueueTotal + (size p).toNat)
  rrlast := b.rrlast
  qlast := b.qlast
  nBytes := u32 (b.nBytes + (size p).toNat)
  nPackets := u32 (b.nPackets + 1)

theorem enqueue_of_accepts (h : b.Accepts cfg size p) :
    b.enqueue cfg size p qIndex = (true, b.taken cfg size p qIndex) := by
  rw [enqueue, doEnqueue]
  simp only [if_pos (show u32 (b.bytesInQueueTotal + (size p).toNat) < cfg.maxBytes from h), if_true]
  rfl

theorem enqueue_of_not_accepts (h : ¬ b.Accepts cfg size p) :
    b.enqueue cfg size p qIndex = (false, b) := by
  rw [enqueue, doEnqueue]
  simp only [if_neg (show ¬ u32 (b.bytesInQueueTotal + (size p).toNat) < cfg.maxBytes from h)]
  rfl

theorem Counted.taken (h : b.Counted size) (hq : qIndex < qCnt)
    (hfollows : b.Follows cfg size p qIndex) :
    (b.taken cfg size p qIndex).Counted size ∧ (b.taken cfg size p qIndex).Fits size := by
  have hbytes := hfollows.bytes
  have hpackets := hfollows.packets
  have hbytesq := Nat.lt_of_le_of_lt (Nat.add_le_add_right (bytesOf_le hq) _) hbytes
  have hpacketsq := Nat.lt_of_le_of_lt (Nat.add_le_add_right (length_le hq) _) hpackets
  have hsub := (h.queues qIndex).enqueue hfollows.room hbytesq hpacketsq
  have hqueues : (b.taken cfg size p qIndex).queues =
      Function.update b.queues qIndex ((b.queues qIndex).enqueue cfg size p).2 := rfl
  obtain ⟨hheld, hheldPackets⟩ := @held_update _ size _ _ hq _ _ hqueues
  rw [SimpleDropTailQueue.packets_enqueue hfollows.room, bytesOf_append, bytesOf_cons,
    bytesOf_nil] at hheld
  rw [SimpleDropTailQueue.packets_enqueue hfollows.room, List.length_append,
    List.length_singleton] at hheldPackets
  have hgrown : (b.taken cfg size p qIndex).heldBytes size =
      u32 (b.heldBytes size + (size p).toNat) := by
    rw [u32_of_lt hbytes]
    omega
  have hmore : (b.taken cfg size p qIndex).heldPackets = u32 (b.heldPackets + 1) := by
    rw [u32_of_lt hpackets]
    omega
  have hlast : u32 (b.bytesInQueue qIndex + (size p).toNat) =
      bytesOf size ((b.queues qIndex).enqueue cfg size p).2.packets := by
    rw [h.bytesInQueue, u32_of_lt hbytesq, SimpleDropTailQueue.packets_enqueue hfollows.room]
    simp
  refine ⟨⟨?_, ?_, ?_, ?_, ?_⟩, ⟨?_, ?_⟩⟩
  · exact counted_update h.queues hsub hqueues
  · exact bytesInQueue_update h.bytesInQueue hlast hqueues rfl
  · rw [hgrown, ← h.total]
    rfl
  · rw [hgrown, ← h.nBytes]
    rfl
  · rw [hmore, ← h.nPackets]
    rfl
  · rw [hgrown]
    exact u32_lt _
  · rw [hmore]
    exact u32_lt _

/-! ### Dequeue -/

theorem find?_pick_some {q : Nat}
    (h : (((List.range' 1 qCnt).map fun k => u32 (k + b.rrlast) % qCnt).find? fun q =>
      !paused q && decide (0 < (b.queues q).nPackets)) = some q) :
    q < qCnt ∧ paused q = false ∧ 0 < (b.queues q).nPackets := by
  have hsuitable := List.find?_some h
  rw [Bool.and_eq_true, Bool.not_eq_true', decide_eq_true_eq] at hsuitable
  obtain ⟨k, -, rfl⟩ := List.mem_map.mp (List.mem_of_find?_eq_some h)
  exact ⟨Nat.mod_lt _ (by decide), hsuitable⟩

/-- What a call of `DequeueRR` that takes the packet `p` from the queue `q` leaves behind. -/
structure Serves (size : α → UInt32) (b : BEgressQueue α) (paused : Nat → Bool) (q : Nat) (p : α)
    (b' : BEgressQueue α) : Prop where
  picked : b.pick paused = some q
  lt : q < qCnt
  contents : (b.queues q).packets = p :: (b'.queues q).packets
  others : ∀ j, j ≠ q → (b'.queues j).packets = (b.queues j).packets
  rrlast : b'.rrlast = if q ≠ 0 then q else b.rrlast
  qlast : b'.qlast = q
  counted : b'.Counted size
  fits : b'.Fits size

theorem Counted.nPackets_pos (h : b.Counted size) (q : Nat) :
    0 < (b.queues q).nPackets ↔ (b.queues q).packets ≠ [] := by
  rw [(h.queues q).nPackets]
  exact List.length_pos_iff

theorem Counted.pick_some (h : b.Counted size) {q : Nat} (hpick : b.pick paused = some q) :
    q < qCnt ∧ (b.queues q).packets ≠ [] ∧
      ((b.queues 0).packets = [] → paused q = false) ∧ ((b.queues 0).packets ≠ [] → q = 0) := by
  rw [pick] at hpick
  split at hpick
  · rename_i hfirst
    rw [h.nPackets_pos] at hfirst
    cases hpick
    exact ⟨by decide, hfirst, fun hempty => absurd hempty hfirst, fun _ => rfl⟩
  · rename_i hfirst
    rw [h.nPackets_pos, not_not] at hfirst
    obtain ⟨hlt, hrun, hpos⟩ := find?_pick_some hpick
    exact ⟨hlt, (h.nPackets_pos q).mp hpos, fun _ => hrun, fun hne => absurd hfirst hne⟩

theorem Counted.pick_none (h : b.Counted size) (hlast : b.rrlast < qCnt)
    (hpick : b.pick paused = none) : b.Idle paused := by
  rw [pick] at hpick
  split at hpick
  · cases hpick
  · rename_i hfirst
    rw [h.nPackets_pos, not_not] at hfirst
    refine ⟨hfirst, ?_⟩
    intro q hpos hq hrun
    by_contra hne
    have hvisited : q ∈ (List.range' 1 qCnt).map fun k => u32 (k + b.rrlast) % qCnt := by
      generalize b.rrlast = r at hlast
      have hall : ∀ r < qCnt, ∀ q < qCnt,
          q ∈ (List.range' 1 qCnt).map fun k => u32 (k + r) % qCnt := by decide
      exact hall r hlast q hq
    have hnot := List.find?_eq_none.mp hpick q hvisited
    rw [hrun, (decide_eq_true ((h.nPackets_pos q).mpr hne))] at hnot
    exact hnot rfl

theorem Idle.pick_none (h : b.Idle paused) (hcounted : b.Counted size) : b.pick paused = none := by
  cases hpick : b.pick paused with
  | none => rfl
  | some q =>
      obtain ⟨hlt, hne, hrun, -⟩ := hcounted.pick_some hpick
      by_cases hq : q = 0
      · rw [hq] at hne
        exact absurd h.1 hne
      · exact absurd (h.2 q (Nat.pos_of_ne_zero hq) hlt (hrun h.1)) hne

/-- The queue after the packet `p` has been taken from the queue `q`, which leaves `sub`. -/
def served (size : α → UInt32) (b : BEgressQueue α) (q : Nat) (p : α)
    (sub : SimpleDropTailQueue α) : BEgressQueue α where
  queues := Function.update b.queues q sub
  bytesInQueue := Function.update b.bytesInQueue q (sub32 (b.bytesInQueue q) (size p).toNat)
  bytesInQueueTotal := sub32 b.bytesInQueueTotal (size p).toNat
  rrlast := if q ≠ 0 then q else b.rrlast
  qlast := q
  nBytes := sub32 b.nBytes (size p).toNat
  nPackets := sub32 b.nPackets 1

@[simp] theorem served_queues (q : Nat) (sub : SimpleDropTailQueue α) :
    (b.served size q p sub).queues = Function.update b.queues q sub := rfl

theorem dequeueRR_of_pick {q : Nat} {sub : SimpleDropTailQueue α}
    (htotal : b.bytesInQueueTotal ≠ 0) (hpick : b.pick paused = some q)
    (hdeq : (b.queues q).dequeue size = some (some p, sub))
    (hassert : (size p).toNat ≤ b.nBytes ∧ 0 < b.nPackets) :
    b.dequeueRR size paused = some (some p, b.served size q p sub) := by
  have hdo : b.doDequeueRR size paused = some (some p,
      { b.served size q p sub with nBytes := b.nBytes, nPackets := b.nPackets }) := by
    rw [doDequeueRR, if_neg htotal, hpick]
    simp only [hdeq]
    rfl
  rw [dequeueRR, hdo]
  simp only [if_pos hassert]
  rfl

theorem Counted.served (h : b.Counted size) (hfits : b.Fits size) {q : Nat} {rest : List α}
    {sub : SimpleDropTailQueue α} (hlt : q < qCnt) (hcontents : (b.queues q).packets = p :: rest)
    (hrest : sub.packets = rest) (hsub : sub.Counted size) :
    (b.served size q p sub).Counted size ∧ (b.served size q p sub).Fits size := by
  have hqueues : (b.served size q p sub).queues = Function.update b.queues q sub := rfl
  have hbytesq : bytesOf size (b.queues q).packets < 2 ^ 32 :=
    Nat.lt_of_le_of_lt (bytesOf_le hlt) hfits.bytes
  have hbytes := hfits.bytes
  have hpackets := hfits.packets
  obtain ⟨hheld, hheldPackets⟩ := @held_update _ size _ _ hlt _ _ hqueues
  rw [hcontents, hrest, bytesOf_cons] at hheld
  rw [hcontents, hrest, List.length_cons] at hheldPackets
  have hle : bytesOf size (b.queues q).packets ≤ b.heldBytes size := bytesOf_le hlt
  have hlength : (b.queues q).packets.length ≤ b.heldPackets := length_le hlt
  rw [hcontents, bytesOf_cons] at hle hbytesq
  rw [hcontents, List.length_cons] at hlength
  have hless : (b.served size q p sub).heldBytes size = sub32 (b.heldBytes size) (size p).toNat := by
    rw [sub32_of_le (by omega) hbytes]
    omega
  have hfewer : (b.served size q p sub).heldPackets = sub32 b.heldPackets 1 := by
    rw [sub32_of_le (by omega) hpackets]
    omega
  have hlast : sub32 (b.bytesInQueue q) (size p).toNat = bytesOf size sub.packets := by
    rw [h.bytesInQueue, hcontents, hrest, bytesOf_cons, sub32_of_le (by omega) hbytesq]
    omega
  refine ⟨⟨?_, ?_, ?_, ?_, ?_⟩, ⟨?_, ?_⟩⟩
  · exact counted_update h.queues hsub hqueues
  · exact bytesInQueue_update h.bytesInQueue hlast hqueues rfl
  · rw [hless, ← h.total]
    rfl
  · rw [hless, ← h.nBytes]
    rfl
  · rw [hfewer, ← h.nPackets]
    rfl
  · rw [hless]
    exact sub32_lt _ _
  · rw [hfewer]
    exact sub32_lt _ _

theorem Counted.dequeueRR_pick (h : b.Counted size) (hfits : b.Fits size)
    (hheld : b.heldBytes size ≠ 0) {q : Nat} (hpick : b.pick paused = some q) :
    ∃ p sub, (b.queues q).dequeue size = some (some p, sub) ∧
      b.dequeueRR size paused = some (some p, b.served size q p sub) ∧
      b.Serves size paused q p (b.served size q p sub) := by
  obtain ⟨hlt, hne, -, -⟩ := h.pick_some hpick
  obtain ⟨p, rest, hcontents⟩ := List.exists_cons_of_ne_nil hne
  have hle : bytesOf size (b.queues q).packets ≤ b.heldBytes size := bytesOf_le hlt
  have hlength : (b.queues q).packets.length ≤ b.heldPackets := length_le hlt
  obtain ⟨sub, hdeq, hrest, hsub⟩ := (h.queues q).dequeue hcontents
    (Nat.lt_of_le_of_lt hle hfits.bytes) (Nat.lt_of_le_of_lt hlength hfits.packets)
  rw [hcontents, bytesOf_cons] at hle
  rw [hcontents, List.length_cons] at hlength
  have hassert : (size p).toNat ≤ b.nBytes ∧ 0 < b.nPackets := by
    rw [h.nBytes, h.nPackets]
    omega
  have htotal : b.bytesInQueueTotal ≠ 0 := by rwa [h.total]
  obtain ⟨hcounted, hfits'⟩ := h.served hfits hlt hcontents hrest hsub
  have hself : ((b.served size q p sub).queues q).packets = rest := by
    rw [served_queues, Function.update_self, hrest]
  refine ⟨p, sub, hdeq, dequeueRR_of_pick htotal hpick hdeq hassert, hpick, hlt, ?_, ?_, rfl, rfl,
    hcounted, hfits'⟩
  · rw [hself]
    exact hcontents
  · intro j hj
    rw [served_queues, Function.update_of_ne hj]

theorem Counted.dequeueRR_cases (h : b.Counted size) (hfits : b.Fits size)
    (hlast : b.rrlast < qCnt)
    (hheld : b.heldBytes size = 0 → ∀ q < qCnt, (b.queues q).packets = []) :
    (b.dequeueRR size paused = some (none, b) ∧ b.Idle paused) ∨
      (¬ b.Idle paused ∧ ∃ q p b', b.dequeueRR size paused = some (some p, b') ∧
        b.Serves size paused q p b') := by
  by_cases hzero : b.heldBytes size = 0
  · left
    have hempty := hheld hzero
    have htotal : b.bytesInQueueTotal = 0 := by rwa [h.total]
    constructor
    · rw [dequeueRR, doDequeueRR, if_pos htotal]
    · exact ⟨hempty 0 (by decide), fun q _ hq _ => hempty q hq⟩
  · cases hpick : b.pick paused with
    | none =>
        left
        have htotal : b.bytesInQueueTotal ≠ 0 := by rwa [h.total]
        constructor
        · rw [dequeueRR, doDequeueRR, if_neg htotal, hpick]
        · exact h.pick_none hlast hpick
    | some q =>
        right
        obtain ⟨p, sub, -, hdeq, hserves⟩ := h.dequeueRR_pick hfits hzero hpick
        refine ⟨?_, q, p, _, hdeq, hserves⟩
        intro hidle
        rw [hidle.pick_none h] at hpick
        cases hpick

/-! ### Turns -/

/-- The queues that take turns. -/
def lower : List Nat := List.range' 1 (qCnt - 1)

/-- The queues of lower priority that come before `q` in the next search. -/
def turn (b : BEgressQueue α) (q : Nat) : Nat := RoundRobin.rank lower (b.rrlast + 6) q

theorem mem_lower {q : Nat} : q ∈ lower ↔ 1 ≤ q ∧ q < qCnt := by
  rw [lower, List.mem_range'_1]
  have hcnt : 1 + (qCnt - 1) = qCnt := by decide
  rw [hcnt]

theorem turn_lt (b : BEgressQueue α) {q : Nat} (hq : q ∈ lower) : b.turn q < 7 := RoundRobin.rank_lt hq

theorem visit_lower {r : Nat} (hr : r < qCnt) :
    ((List.range' 1 qCnt).map fun k => u32 (k + r) % qCnt).filter (fun q => decide (q ≠ 0)) =
      RoundRobin.order lower (r + 6) := by
  have hall : ∀ r < qCnt,
      ((List.range' 1 qCnt).map fun k => u32 (k + r) % qCnt).filter (fun q => decide (q ≠ 0)) =
        RoundRobin.order lower (r + 6) := by decide
  exact hall r hr

theorem pick_lower (hlast : b.rrlast < qCnt) {q : Nat} (hne : q ≠ 0)
    (hpick : b.pick paused = some q) :
    (RoundRobin.order lower (b.rrlast + 6)).find? (fun q =>
      !paused q && decide (0 < (b.queues q).nPackets)) = some q := by
  rw [pick] at hpick
  split at hpick
  · cases hpick
    exact absurd rfl hne
  · rename_i hfirst
    rw [← visit_lower hlast, List.find?_filter]
    rw [← hpick]
    congr 1
    funext j
    by_cases hj : j = 0
    · rw [hj]
      simp [hfirst]
    · simp [hj]

theorem order_lower (q : Nat) (hq : 1 ≤ q) :
    RoundRobin.order lower (q + 6) = RoundRobin.order lower (q - 1) := by
  have hlen : lower.length = 7 := rfl
  rw [RoundRobin.order, RoundRobin.order, ← List.rotate_mod, ← List.rotate_mod lower (q - 1 + 1), hlen]
  congr 1
  omega

theorem Serves.turn_lt {q j : Nat} {b' : BEgressQueue α} (h : b.Serves size paused j p b')
    (hcounted : b.Counted size) (hlast : b.rrlast < qCnt) (hj : j ≠ 0) (hq : q ∈ lower)
    (hrun : paused q = false) (hne : (b.queues q).packets ≠ []) (hother : j ≠ q) :
    b'.turn q < b.turn q := by
  have hfind := pick_lower hlast hj h.picked
  have hsuitable : (!paused q && decide (0 < (b.queues q).nPackets)) = true := by
    rw [hrun, decide_eq_true ((hcounted.nPackets_pos q).mpr hne)]
    rfl
  have hle := RoundRobin.rank_le_of_find? hfind hsuitable
  have hmem : j ∈ RoundRobin.order lower (b.rrlast + 6) := List.mem_of_find?_eq_some hfind
  have hrank : RoundRobin.rank lower (b.rrlast + 6) j ≠ RoundRobin.rank lower (b.rrlast + 6) q :=
    fun heq => hother ((List.idxOf_inj hmem).mp heq)
  have hindex : lower[j - 1]? = some j := by
    have hlt := h.lt
    rw [lower, List.getElem?_range' (by rw [qCnt] at *; omega)]
    congr 1
    omega
  have hlower := RoundRobin.rank_served List.nodup_range' (List.Sublist.refl lower) hindex hq
    (Nat.lt_of_le_of_ne hle hrank)
  rw [turn, h.rrlast, if_pos hj, RoundRobin.rank, order_lower j (Nat.pos_of_ne_zero hj)]
  exact hlower

end BEgressQueue

/-! ### Runs -/

/-- A queue with the packets it has accepted and those it has given out, in order, each with the number
of its queue. -/
structure QueueRun (α : Type) where
  queue : BEgressQueue α
  accepted : List (Nat × α)
  given : List (Nat × α)

inductive QueueEvent (α : Type)
  | enqueue (p : α) (qIndex : Nat)
  | dequeueRR (paused : Nat → Bool)

namespace QueueRun

variable {α : Type} (cfg : BroadcomConfig) (size : α → UInt32) (s : QueueRun α)

def start (b : BEgressQueue α) : QueueRun α := ⟨b, [], []⟩

/-- A call; `none` where the program is stopped. -/
def step (s : QueueRun α) : QueueEvent α → Option (QueueRun α)
  | .enqueue p qIndex =>
      if qIndex < qCnt then
        let (retval, b) := s.queue.enqueue cfg size p qIndex
        some { s with
          queue := b
          accepted := if retval then s.accepted ++ [(qIndex, p)] else s.accepted }
      else none
  | .dequeueRR paused =>
      (s.queue.dequeueRR size paused).map fun (packet, b) =>
        { s with
          queue := b
          given := match packet with
            | none => s.given
            | some p => s.given ++ [(b.qlast, p)] }

/-- A packet that the outer queue takes fits everywhere, and packets without bytes do not wait alone
when the next one is asked for. -/
def Sound (s : QueueRun α) : QueueEvent α → Prop
  | .enqueue p qIndex => s.queue.Accepts cfg size p → s.queue.Follows cfg size p qIndex
  | .dequeueRR _ => s.queue.heldBytes size = 0 → ∀ q < qCnt, (s.queue.queues q).packets = []

/-- The packets of one queue in a log. -/
def ofQueue (log : List (Nat × α)) (q : Nat) : List α :=
  (log.filter fun x => x.1 = q).map Prod.snd

/-- What holds in every state: the counters are those of the contents, and the packets of a queue come
out in the order in which they were accepted, the others still being there. -/
structure Sane : Prop where
  counted : s.queue.Counted size
  fits : s.queue.Fits size
  rrlast : s.queue.rrlast < qCnt
  fifo : ∀ q, ofQueue s.accepted q = ofQueue s.given q ++ (s.queue.queues q).packets

variable {cfg size s} {t : QueueRun α}

theorem ofQueue_append (log log' : List (Nat × α)) (q : Nat) :
    ofQueue (log ++ log') q = ofQueue log q ++ ofQueue log' q := by
  simp [ofQueue]

theorem ofQueue_self (q : Nat) (p : α) : ofQueue [(q, p)] q = [p] := by
  simp [ofQueue]

theorem ofQueue_of_ne {q j : Nat} (h : q ≠ j) (p : α) : ofQueue [(j, p)] q = [] := by
  simp [ofQueue, h.symm]

theorem sane_start (qlast : UInt32) : (start (.constructed 0 0 qlast) : QueueRun α).Sane size := by
  have hcounted : (BEgressQueue.constructed 0 0 qlast : BEgressQueue α).Counted size :=
    BEgressQueue.counted_constructed qlast
  have hbytes : 0 = (BEgressQueue.constructed 0 0 qlast : BEgressQueue α).heldBytes size :=
    hcounted.total
  have hpackets : 0 = (BEgressQueue.constructed 0 0 qlast : BEgressQueue α).heldPackets :=
    hcounted.nPackets
  refine ⟨hcounted, ⟨?_, ?_⟩, ?_, fun _ => rfl⟩
  · rw [start, ← hbytes]
    exact Nat.two_pow_pos 32
  · rw [start, ← hpackets]
    exact Nat.two_pow_pos 32
  · exact Nat.zero_lt_of_lt (show 7 < qCnt by decide)

theorem Sane.enqueue (h : s.Sane size) {p : α} {q : Nat} (hq : q < qCnt)
    (hfollows : s.queue.Follows cfg size p q) :
    ({ s with queue := s.queue.taken cfg size p q, accepted := s.accepted ++ [(q, p)] } :
      QueueRun α).Sane size := by
  obtain ⟨hcounted, hfits⟩ := h.counted.taken hq hfollows
  refine ⟨hcounted, hfits, h.rrlast, ?_⟩
  intro j
  show ofQueue (s.accepted ++ [(q, p)]) j = ofQueue s.given j ++
    (Function.update s.queue.queues q ((s.queue.queues q).enqueue cfg size p).2 j).packets
  rw [ofQueue_append, h.fifo]
  by_cases hj : j = q
  · rw [hj, ofQueue_self, Function.update_self,
      SimpleDropTailQueue.packets_enqueue hfollows.room, List.append_assoc]
  · rw [ofQueue_of_ne hj, Function.update_of_ne hj, List.append_nil]

theorem Sane.serve (h : s.Sane size) {paused : Nat → Bool} {q : Nat} {p : α} {b : BEgressQueue α}
    (hserves : s.queue.Serves size paused q p b) :
    ({ s with queue := b, given := s.given ++ [(b.qlast, p)] } : QueueRun α).Sane size := by
  refine ⟨hserves.counted, hserves.fits, ?_, ?_⟩
  · show b.rrlast < qCnt
    rw [hserves.rrlast]
    split
    · exact hserves.lt
    · exact h.rrlast
  · intro j
    show ofQueue s.accepted j = ofQueue (s.given ++ [(b.qlast, p)]) j ++ (b.queues j).packets
    rw [ofQueue_append, h.fifo, hserves.qlast]
    by_cases hj : j = q
    · rw [hj, hserves.contents, ofQueue_self, List.append_assoc]
      rfl
    · rw [ofQueue_of_ne hj, hserves.others j hj, List.append_nil]

/-- What a sound call does: it keeps the state, accepts a packet, or gives one out. -/
theorem step_cases {e : QueueEvent α} (h : s.Sane size) (hsound : Sound cfg size s e)
    (hstep : s.step cfg size e = some t) :
    (t = s) ∨
    (∃ p q, e = .enqueue p q ∧ q < qCnt ∧ s.queue.Accepts cfg size p ∧
      t = { s with queue := s.queue.taken cfg size p q, accepted := s.accepted ++ [(q, p)] }) ∨
    (∃ paused q p b, e = .dequeueRR paused ∧ s.queue.Serves size paused q p b ∧
      t = { s with queue := b, given := s.given ++ [(q, p)] }) := by
  cases e with
  | enqueue p q =>
      rw [step] at hstep
      split at hstep
      · rename_i hq
        by_cases haccepts : s.queue.Accepts cfg size p
        · rw [BEgressQueue.enqueue_of_accepts haccepts] at hstep
          cases hstep
          exact Or.inr (Or.inl ⟨p, q, rfl, hq, haccepts, rfl⟩)
        · rw [BEgressQueue.enqueue_of_not_accepts haccepts] at hstep
          cases hstep
          exact Or.inl rfl
      · cases hstep
  | dequeueRR paused =>
      rw [step] at hstep
      rcases @BEgressQueue.Counted.dequeueRR_cases _ _ _ paused h.counted h.fits h.rrlast hsound with
        ⟨hdeq, -⟩ | ⟨-, q, p, b, hdeq, hserves⟩
      · rw [hdeq] at hstep
        cases hstep
        exact Or.inl rfl
      · rw [hdeq] at hstep
        cases hstep
        right
        right
        refine ⟨paused, q, p, b, rfl, hserves, ?_⟩
        rw [← hserves.qlast]

theorem step_sane (h : s.Sane size) {e : QueueEvent α} (hsound : Sound cfg size s e)
    (hstep : s.step cfg size e = some t) : t.Sane size := by
  rcases step_cases h hsound hstep with
    rfl | ⟨p, q, rfl, hq, haccepts, rfl⟩ | ⟨paused, q, p, b, rfl, hserves, rfl⟩
  · exact h
  · exact h.enqueue hq (hsound haccepts)
  · rw [← hserves.qlast]
    exact h.serve hserves

theorem run_sane {es : List (QueueEvent α)} (hrun : Run (step cfg size) (Sound cfg size) s es t)
    (h : s.Sane size) : t.Sane size :=
  hrun.invariant (fun _ _ _ hs hok hstep => step_sane hs hok hstep) h

/-- A sound call that asks for a packet while the queue `q` is not paused. -/
def SoundFor (cfg : BroadcomConfig) (size : α → UInt32) (q : Nat) (s : QueueRun α)
    (e : QueueEvent α) : Prop :=
  Sound cfg size s e ∧ ∀ paused, e = .dequeueRR paused → paused q = false

/-- The packets of lower priority in a log. -/
def nLower (log : List (Nat × α)) : Nat := log.countP fun x => decide (x.1 ≠ 0)

theorem nLower_append (log log' : List (Nat × α)) : nLower (log ++ log') = nLower log + nLower log' :=
  List.countP_append

/-- One call brings the turn of a waiting queue closer by the packets of lower priority it gives out. -/
theorem step_turn {q : Nat} (hq : q ∈ BEgressQueue.lower) (h : s.Sane size)
    (hne : (s.queue.queues q).packets ≠ []) {e : QueueEvent α} (hsound : SoundFor cfg size q s e)
    (hstep : s.step cfg size e = some t) :
    ∃ new, t.given = s.given ++ new ∧ (ofQueue new q ≠ [] ∨
      ((t.queue.queues q).packets ≠ [] ∧ nLower new + t.queue.turn q ≤ s.queue.turn q)) := by
  rcases step_cases h hsound.1 hstep with
    rfl | ⟨p, j, rfl, -, haccepts, rfl⟩ | ⟨paused, j, p, b, rfl, hserves, rfl⟩
  · exact ⟨[], by simp, Or.inr ⟨hne, by simp [nLower]⟩⟩
  · refine ⟨[], by simp, Or.inr ⟨?_, by simp [nLower, BEgressQueue.turn, BEgressQueue.taken]⟩⟩
    show (Function.update s.queue.queues j ((s.queue.queues j).enqueue cfg size p).2 q).packets ≠ []
    by_cases hj : q = j
    · rw [hj, Function.update_self,
        SimpleDropTailQueue.packets_enqueue (hj ▸ (hsound.1 haccepts).room)]
      simp
    · rwa [Function.update_of_ne hj]
  · refine ⟨[(j, p)], rfl, ?_⟩
    have hrun := hsound.2 paused rfl
    by_cases hj : j = q
    · left
      rw [hj, ofQueue_self]
      exact List.cons_ne_nil _ _
    · right
      constructor
      · rw [hserves.others q (Ne.symm hj)]
        exact hne
      · by_cases hzero : j = 0
        · have hsame : b.turn q = s.queue.turn q := by
            rw [BEgressQueue.turn, hserves.rrlast, if_neg (not_not.mpr hzero), BEgressQueue.turn]
          simp [nLower, hzero, hsame]
        · have hcloser := hserves.turn_lt h.counted h.rrlast hzero hq hrun hne hj
          have hone : nLower [(j, p)] = 1 := by simp [nLower, hzero]
          rw [hone]
          show 1 + b.turn q ≤ s.queue.turn q
          omega

theorem run_given {es : List (QueueEvent α)} (hrun : Run (step cfg size) (Sound cfg size) s es t)
    (h : s.Sane size) : ∃ new, t.given = s.given ++ new := by
  induction hrun with
  | nil s => exact ⟨[], by simp⟩
  | cons hok hstep _ ih =>
      obtain ⟨new, hnew⟩ := ih (step_sane h hok hstep)
      rcases step_cases h hok hstep with
        rfl | ⟨_, _, -, -, -, rfl⟩ | ⟨_, q, p, _, -, -, rfl⟩
      · exact ⟨new, hnew⟩
      · exact ⟨new, hnew⟩
      · exact ⟨(q, p) :: new, by rw [hnew, List.append_assoc, List.singleton_append]⟩

/-- A waiting queue that is not paused has been served, or its turn is closer by as much. -/
theorem run_turn {q : Nat} (hq : q ∈ BEgressQueue.lower) {es : List (QueueEvent α)}
    (hrun : Run (step cfg size) (SoundFor cfg size q) s es t) (h : s.Sane size)
    (hne : (s.queue.queues q).packets ≠ []) :
    ∃ new, t.given = s.given ++ new ∧ (ofQueue new q ≠ [] ∨
      ((t.queue.queues q).packets ≠ [] ∧ nLower new + t.queue.turn q ≤ s.queue.turn q)) := by
  induction hrun with
  | nil s => exact ⟨[], by simp, Or.inr ⟨hne, by simp [nLower]⟩⟩
  | @cons s u t e es hok hstep hrest ih =>
      have hu := step_sane h hok.1 hstep
      obtain ⟨new, hnew, hserved | ⟨hwaits, hturn⟩⟩ := step_turn hq h hne hok hstep
      · obtain ⟨new', hnew'⟩ := run_given (hrest.mono fun _ _ hok => hok.1) hu
        refine ⟨new ++ new', by rw [hnew', hnew, List.append_assoc], Or.inl ?_⟩
        rw [ofQueue_append]
        exact List.append_ne_nil_of_left_ne_nil hserved _
      · obtain ⟨new', hnew', hlater⟩ := ih hu hwaits
        refine ⟨new ++ new', by rw [hnew', hnew, List.append_assoc], ?_⟩
        rcases hlater with hserved | ⟨hwaits', hturn'⟩
        · left
          rw [ofQueue_append]
          exact List.append_ne_nil_of_right_ne_nil _ hserved
        · right
          rw [nLower_append]
          exact ⟨hwaits', by omega⟩

/-- A sound request is answered, with nothing exactly if nothing may be sent, and by queue 0 first. -/
theorem dequeueRR_answers (h : s.Sane size) {paused : Nat → Bool}
    (hsound : Sound cfg size s (.dequeueRR paused)) :
    ∃ packet b, s.queue.dequeueRR size paused = some (packet, b) ∧
      (packet = none ↔ s.queue.Idle paused) ∧
      ((s.queue.queues 0).packets ≠ [] → packet = (s.queue.queues 0).packets.head?) := by
  rcases @BEgressQueue.Counted.dequeueRR_cases _ _ _ paused h.counted h.fits h.rrlast hsound with
    ⟨hdeq, hidle⟩ | ⟨hbusy, q, p, b, hdeq, hserves⟩
  · refine ⟨none, s.queue, hdeq, by simp [hidle], ?_⟩
    intro hne
    exact absurd hidle.1 hne
  · refine ⟨some p, b, hdeq, by simp [hbusy], ?_⟩
    intro hne
    obtain ⟨-, -, -, hfirst⟩ := h.counted.pick_some hserves.picked
    rw [← hfirst hne, hserves.contents]
    rfl

/-- From a constructor that finds its counters at zero, calls that are sound keep the counters at the
contents and every queue first in first out; a request gets nothing exactly if nothing may be sent,
queue 0 goes first, and a waiting queue is served within seven packets of lower priority. -/
theorem run_correct (cfg : BroadcomConfig) (size : α → UInt32) (qlast : UInt32) {s : QueueRun α}
    {es : List (QueueEvent α)}
    (hrun : Run (step cfg size) (Sound cfg size) (start (.constructed 0 0 qlast)) es s) :
    s.Sane size ∧
    (∀ paused, Sound cfg size s (.dequeueRR paused) →
      ∃ packet b, s.queue.dequeueRR size paused = some (packet, b) ∧
        (packet = none ↔ s.queue.Idle paused) ∧
        ((s.queue.queues 0).packets ≠ [] → packet = (s.queue.queues 0).packets.head?)) ∧
    ∀ q es' t, 1 ≤ q → q < qCnt → (s.queue.queues q).packets ≠ [] →
      Run (step cfg size) (SoundFor cfg size q) s es' t →
      ∃ new, t.given = s.given ++ new ∧ (7 ≤ nLower new → ofQueue new q ≠ []) := by
  have hsane := run_sane hrun (sane_start qlast)
  refine ⟨hsane, fun paused hsound => dequeueRR_answers hsane hsound, ?_⟩
  intro q es' t hpos hlt hne hrest
  have hq := BEgressQueue.mem_lower.mpr ⟨hpos, hlt⟩
  obtain ⟨new, hnew, hserved⟩ := run_turn hq hrest hsane hne
  refine ⟨new, hnew, ?_⟩
  intro hmany
  rcases hserved with hserved | ⟨-, hturn⟩
  · exact hserved
  · have hlt := s.queue.turn_lt hq
    omega

instance (b : BEgressQueue α) (p : α) : Decidable (b.Accepts cfg size p) :=
  inferInstanceAs (Decidable (_ < cfg.maxBytes))

instance (b : BEgressQueue α) (p : α) (qIndex : Nat) : Decidable (b.Follows cfg size p qIndex) :=
  decidable_of_iff (¬ (b.queues qIndex).Full cfg size p ∧
      b.heldBytes size + (size p).toNat < 2 ^ 32 ∧ b.heldPackets + 1 < 2 ^ 32)
    ⟨fun h => ⟨h.1, h.2.1, h.2.2⟩, fun h => ⟨h.room, h.bytes, h.packets⟩⟩

instance (s : QueueRun α) : (e : QueueEvent α) → Decidable (Sound cfg size s e)
  | .enqueue p qIndex =>
      inferInstanceAs (Decidable (s.queue.Accepts cfg size p → s.queue.Follows cfg size p qIndex))
  | .dequeueRR _ =>
      inferInstanceAs (Decidable (_ = 0 → ∀ q < qCnt, (s.queue.queues q).packets = []))

theorem soundFor_dequeueRR {q : Nat} {paused : Nat → Bool} :
    SoundFor cfg size q s (.dequeueRR paused) ↔ Sound cfg size s (.dequeueRR paused) ∧ paused q = false := by
  refine and_congr_right fun _ => ⟨fun h => h paused rfl, ?_⟩
  rintro h _ heq
  cases heq
  exact h

instance (q : Nat) (s : QueueRun α) : (e : QueueEvent α) → Decidable (SoundFor cfg size q s e)
  | .enqueue _ _ => decidable_of_iff (Sound cfg size s _) ⟨fun h => ⟨h, nofun⟩, And.left⟩
  | .dequeueRR _ => decidable_of_iff _ soundFor_dequeueRR.symm

/-- Four queues with packets. -/
def fourQueues : List (QueueEvent UInt32) :=
  [.enqueue 1500 3, .enqueue 64 1, .enqueue 65 1, .enqueue 66 1, .enqueue 67 1, .enqueue 256 0,
    .enqueue 128 2, .enqueue 129 2, .enqueue 130 2, .enqueue 1501 3]

/-- As many requests as give out seven packets of lower priority. -/
def eightRequests : List (QueueEvent UInt32) :=
  List.replicate 8 (.dequeueRR fun q => decide (q = 5))

theorem run_correct_one :
    ∃ s : QueueRun UInt32, Run (step .default id) (Sound .default id)
        (start (.constructed 0 0 7)) fourQueues s ∧ s.Sane id ∧
      ∃ new t, Run (step .default id) (SoundFor .default id 3) s eightRequests t ∧
        t.given = s.given ++ new ∧ nLower new = 7 ∧ ofQueue new 3 ≠ [] := by
  obtain ⟨s, hrun, hne, hgiven, hexec⟩ := exists_run (step .default id) (Sound .default id)
    (fun s => (s.queue.queues 3).packets ≠ [] ∧ s.given = [] ∧
      (execGuarded (step .default id) (SoundFor .default id 3) s eightRequests).any
        (fun t => decide (nLower t.given = 7)) = true)
    (start (.constructed 0 0 7)) fourQueues (by decide +kernel)
  obtain ⟨t, hrest, hlower⟩ := exists_run (step .default id) (SoundFor .default id 3)
    (fun t => nLower t.given = 7) s eightRequests hexec
  obtain ⟨hsane, -, hturn⟩ := run_correct .default id 7 hrun
  obtain ⟨new, hnew, hserved⟩ := hturn 3 _ _ (by decide) (by decide) hne hrest
  rw [hnew, hgiven, List.nil_append] at hlower
  exact ⟨s, hrun, hsane, new, t, hrest, hnew, hlower, hserved hlower.ge⟩

/-- A queue in memory that is not zero starts with a packet it does not have; a packet without bytes
stays behind a request that is answered with nothing; and with a larger `MaxBytes` the second of two
packets is accepted and lost. -/
theorem run_incorrect :
    (start (.constructed 0 1 0) : QueueRun UInt32).queue.nPackets ≠
        (start (.constructed 0 1 0) : QueueRun UInt32).queue.heldPackets ∧
    ((exec (step .default id) (start (.constructed 0 0 0)) [.enqueue (0 : UInt32) 3]).any fun s =>
      !(s.queue.queues 3).packets.isEmpty &&
        (s.queue.dequeueRR id fun _ => false).any fun x => x.1.isNone) = true ∧
    (exec (step { BroadcomConfig.default with maxBytes := 4 * 10 ^ 9 } id)
      (start (.constructed 0 0 0))
      [.enqueue (10 ^ 9 : UInt32) 3, .enqueue (10 ^ 9 : UInt32) 3]).any (fun s =>
        decide ((ofQueue s.accepted 3).length = 2 ∧ (s.queue.queues 3).packets.length = 1 ∧
          s.given = [] ∧ s.queue.bytesInQueueTotal = 2 * 10 ^ 9)) = true := by
  refine ⟨?_, ?_, ?_⟩
  · decide
  · decide
  · decide

end QueueRun

/-! ### The queue of a switch port -/

/-- `GetSize` in its 32 bits. -/
def Frame.getSize (f : Frame) : UInt32 := UInt32.ofNat f.size

namespace BEgressQueue

/-- The queue of a port without the counters of packets. -/
def toEgressQueue (b : BEgressQueue Frame) : EgressQueue where
  bytesInQueueTotal := b.bytesInQueueTotal
  rrlast := b.rrlast
  queues := fun q => (b.queues q).packets
  bytesInQueue := fun q => (b.queues q).bytesInQueue

variable {cfg : BroadcomConfig} {b : BEgressQueue Frame} {f : Frame} {q : Nat}
  {paused : Nat → Bool}

theorem u32_getSize (n : Nat) : u32 (n + f.getSize.toNat) = u32 (n + f.size) := by
  rw [Frame.getSize, UInt32.toNat_ofNat', u32, u32, Nat.add_mod_mod]

theorem sub32_getSize (n : Nat) : sub32 n f.getSize.toNat = sub32 n f.size := by
  rw [Frame.getSize, UInt32.toNat_ofNat', sub32, sub32]
  simp only [u32, Nat.mod_mod]

/-- A port whose queues count bytes takes a frame as this queue does. -/
theorem toEgressQueue_enqueue (hmode : cfg.mode = .bytes) :
    (b.enqueue cfg Frame.getSize f q).2.toEgressQueue =
      b.toEgressQueue.enqueue ⟨cfg.maxBytes, cfg.subMaxBytes⟩ f q := by
  have hfull : (b.queues q).Full cfg Frame.getSize f ↔
      u32 (b.toEgressQueue.bytesInQueue q + f.size) ≥ cfg.subMaxBytes := by
    simp [SimpleDropTailQueue.Full, hmode, u32_getSize, toEgressQueue]
  rw [EgressQueue.enqueue]
  by_cases haccepts : b.Accepts cfg Frame.getSize f
  · have htotal : u32 (b.toEgressQueue.bytesInQueueTotal + f.size) < cfg.maxBytes := by
      rw [← u32_getSize]
      exact haccepts
    rw [enqueue_of_accepts haccepts, if_pos htotal, EgressQueue.subEnqueue]
    by_cases hroom : (b.queues q).Full cfg Frame.getSize f
    · rw [if_pos (hfull.mp hroom)]
      simp [toEgressQueue, taken, SimpleDropTailQueue.enqueue, hroom, u32_getSize]
    · rw [if_neg (mt hfull.mpr hroom)]
      simp only [toEgressQueue, taken, SimpleDropTailQueue.enqueue, if_neg hroom, u32_getSize,
        EgressQueue.mk.injEq, true_and]
      constructor
      · funext j
        by_cases hj : j = q
        · rw [hj, Function.update_self, Function.update_self]
        · rw [Function.update_of_ne hj, Function.update_of_ne hj]
      · funext j
        by_cases hj : j = q
        · rw [hj, Function.update_self, Function.update_self]
        · rw [Function.update_of_ne hj, Function.update_of_ne hj]
  · have htotal : ¬ u32 (b.toEgressQueue.bytesInQueueTotal + f.size) < cfg.maxBytes := by
      rw [← u32_getSize]
      exact haccepts
    rw [enqueue_of_not_accepts haccepts, if_neg htotal]

theorem toEgressQueue_pick (h : b.Counted Frame.getSize) (hlast : b.rrlast < qCnt) :
    b.toEgressQueue.pick paused = b.pick paused := by
  have hsuitable (q : Nat) : (!((b.queues q).packets).isEmpty) =
      decide (0 < (b.queues q).nPackets) := by
    rw [(h.queues q).nPackets]
    cases (b.queues q).packets <;> simp
  have hindex : ((List.range' 1 qCnt).map fun k => (k + b.rrlast) % qCnt) =
      (List.range' 1 qCnt).map fun k => u32 (k + b.rrlast) % qCnt := by
    apply List.map_congr_left
    intro k hk
    rw [List.mem_range'_1] at hk
    rw [u32_of_lt (by rw [qCnt] at *; omega)]
  rw [pick, EgressQueue.pick]
  simp only [toEgressQueue, h.nPackets_pos, hsuitable, hindex]

/-- Where the counters are those of the contents it gives out the same frames. -/
theorem toEgressQueue_dequeueRR (h : b.Counted Frame.getSize) (hfits : b.Fits Frame.getSize)
    (hlast : b.rrlast < qCnt) :
    ∃ packet b', b.dequeueRR Frame.getSize paused = some (packet, b') ∧
      b.toEgressQueue.dequeueRR paused = packet.map fun f => (b'.qlast, f, b'.toEgressQueue) := by
  have hsame : b.toEgressQueue.bytesInQueueTotal = b.bytesInQueueTotal := rfl
  by_cases htotal : b.bytesInQueueTotal = 0
  · refine ⟨none, b, ?_, ?_⟩
    · rw [dequeueRR, doDequeueRR, if_pos htotal]
    · rw [EgressQueue.dequeueRR, hsame, if_pos htotal]
      rfl
  · have hpick' : b.toEgressQueue.pick paused = b.pick paused := toEgressQueue_pick h hlast
    cases hpick : b.pick paused with
    | none =>
        rw [hpick] at hpick'
        refine ⟨none, b, ?_, ?_⟩
        · rw [dequeueRR, doDequeueRR, if_neg htotal, hpick]
        · rw [EgressQueue.dequeueRR, hsame, if_neg htotal, hpick']
          rfl
    | some q =>
        rw [hpick] at hpick'
        have hheld : b.heldBytes Frame.getSize ≠ 0 := by rwa [← h.total]
        obtain ⟨f, sub, hsub, hdeq, -⟩ := h.dequeueRR_pick hfits hheld hpick
        obtain ⟨rest, hfront, hrest, hbytes⟩ := SimpleDropTailQueue.dequeue_bytesInQueue hsub
        have hqueue : b.toEgressQueue.queues q = f :: rest := hfront
        refine ⟨some f, b.served Frame.getSize q f sub, hdeq, ?_⟩
        rw [EgressQueue.dequeueRR, hsame, if_neg htotal, hpick']
        simp only [hqueue, Option.map_some, Option.some_inj, Prod.mk.injEq, true_and]
        refine ⟨rfl, ?_⟩
        simp only [toEgressQueue, served, sub32_getSize, EgressQueue.mk.injEq, true_and]
        constructor
        · funext j
          by_cases hj : j = q
          · rw [hj, Function.update_self, Function.update_self, hrest]
          · rw [Function.update_of_ne hj, Function.update_of_ne hj]
        · funext j
          by_cases hj : j = q
          · rw [hj, Function.update_self, Function.update_self, hbytes, sub32_getSize]
          · rw [Function.update_of_ne hj, Function.update_of_ne hj]

end BEgressQueue

end CollectiveSim.Switch
