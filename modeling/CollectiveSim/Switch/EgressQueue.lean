import Mathlib
import CollectiveSim.Framework.MachineInt
import CollectiveSim.Switch.Accounting

/-!
# The output queues of a port

`BEgressQueue` keeps one FIFO for each priority. Queue 0 goes first, the others take turns and skip
the priorities that the next hop has paused.
-/

namespace CollectiveSim.Switch

open Framework

/-- The bytes of a PFC frame: PPP, IPv4 and pause headers. -/
def pfcFrameSize : Nat := 14 + 20 + 9

/-- What an output queue holds: a packet that came in by a port, or a PFC frame of the switch. -/
inductive Frame where
  | received (p : Packet)
  | pfc (qIndex : Nat) (pause : Bool)
  deriving DecidableEq

namespace Frame

/-- `GetSize`. -/
def size : Frame → Nat
  | received p => p.size
  | pfc _ _ => pfcFrameSize

/-- The packet that came in by a port, if the frame is one. -/
def packet? : Frame → Option Packet
  | received p => some p
  | pfc _ _ => none

end Frame

/-- The `MaxBytes` attributes of `BEgressQueue` and of its `SimpleDropTailQueue`s. -/
structure QueueLimits where
  maxBytes : Nat
  subMaxBytes : Nat

/-- The defaults of both attributes. -/
def QueueLimits.default : QueueLimits := ⟨1000 * 1024 * 1024, 30000 * 65535⟩

/-- `BEgressQueue`: the FIFO of each priority with the byte count it keeps itself. -/
structure EgressQueue where
  bytesInQueueTotal : Nat
  rrlast : Nat
  queues : Nat → List Frame
  bytesInQueue : Nat → Nat

namespace EgressQueue

def initial : EgressQueue := ⟨0, 0, fun _ => [], fun _ => 0⟩

variable (limits : QueueLimits) (b : EgressQueue) (frame : Frame) (qIndex : Nat)

/-- `BEgressQueue::DoEnqueue` and the `SimpleDropTailQueue` under it both take the frame. -/
def Accepts : Prop :=
  u32 (b.bytesInQueueTotal + frame.size) < limits.maxBytes ∧
    u32 (b.bytesInQueue qIndex + frame.size) < limits.subMaxBytes

instance : Decidable (b.Accepts limits frame qIndex) := by
  unfold Accepts
  infer_instance

/-- `SimpleDropTailQueue::DoEnqueue`. -/
def subEnqueue : EgressQueue :=
  if u32 (b.bytesInQueue qIndex + frame.size) ≥ limits.subMaxBytes then b
  else
    { b with
      queues := Function.update b.queues qIndex (b.queues qIndex ++ [frame])
      bytesInQueue := Function.update b.bytesInQueue qIndex
        (u32 (b.bytesInQueue qIndex + frame.size)) }

/-- `BEgressQueue::DoEnqueue`. It does not look at what the queue of the priority answers, and
`SwitchSend` does not look at what it answers itself. -/
def enqueue : EgressQueue :=
  if u32 (b.bytesInQueueTotal + frame.size) < limits.maxBytes then
    { b.subEnqueue limits frame qIndex with
      bytesInQueueTotal := u32 (b.bytesInQueueTotal + frame.size) }
  else b

/-- The queue that `DoDequeueRR` serves. -/
def pick (paused : Nat → Bool) : Option Nat :=
  if b.queues 0 ≠ [] then some 0
  else ((List.range' 1 qCnt).map fun k => (k + b.rrlast) % qCnt).find? fun q =>
    !paused q && !(b.queues q).isEmpty

/-- `DoDequeueRR`: the queue served, the frame and what is left. -/
def dequeueRR (paused : Nat → Bool) : Option (Nat × Frame × EgressQueue) :=
  if b.bytesInQueueTotal = 0 then none
  else
    match b.pick paused with
    | none => none
    | some q =>
        match b.queues q with
        | [] => none
        | f :: rest =>
            some (q, f,
              { bytesInQueueTotal := sub32 b.bytesInQueueTotal f.size
                rrlast := if q ≠ 0 then q else b.rrlast
                queues := Function.update b.queues q rest
                bytesInQueue := Function.update b.bytesInQueue q
                  (sub32 (b.bytesInQueue q) f.size) })

/-- The frames in all queues. -/
def length : Nat := ∑ q ∈ Finset.range qCnt, (b.queues q).length

/-- The loop of `TakeDown`: dequeue until nothing comes. -/
def drain : Nat → EgressQueue → EgressQueue
  | 0, b => b
  | n + 1, b =>
      match b.dequeueRR fun _ => false with
      | none => b
      | some (_, _, rest) => drain n rest

variable {limits b frame qIndex}

theorem enqueue_queues (h : b.Accepts limits frame qIndex) :
    (b.enqueue limits frame qIndex).queues =
      Function.update b.queues qIndex (b.queues qIndex ++ [frame]) := by
  rw [enqueue, if_pos h.1, subEnqueue, if_neg (Nat.not_le.mpr h.2)]

theorem enqueue_queues_of_not_accepts (h : ¬ b.Accepts limits frame qIndex) :
    (b.enqueue limits frame qIndex).queues = b.queues := by
  rw [enqueue]
  by_cases htotal : u32 (b.bytesInQueueTotal + frame.size) < limits.maxBytes
  · rw [if_pos htotal, subEnqueue, if_pos (Nat.not_lt.mp fun hsub => h ⟨htotal, hsub⟩)]
  · rw [if_neg htotal]

theorem enqueue_cases (limits : QueueLimits) (b : EgressQueue) (frame : Frame) (qIndex : Nat) :
    (b.enqueue limits frame qIndex).queues = b.queues ∨
      (b.enqueue limits frame qIndex).queues =
        Function.update b.queues qIndex (b.queues qIndex ++ [frame]) := by
  by_cases h : b.Accepts limits frame qIndex
  · exact .inr (enqueue_queues h)
  · exact .inl (enqueue_queues_of_not_accepts h)

theorem pick_lt {paused : Nat → Bool} {q : Nat} (h : b.pick paused = some q) : q < qCnt := by
  rw [pick] at h
  split at h
  · cases h
    decide
  · obtain ⟨k, -, rfl⟩ := List.mem_map.mp (List.mem_of_find?_eq_some h)
    exact Nat.mod_lt _ (by decide)

/-- A dequeue takes the head of one queue. -/
theorem dequeueRR_eq_some {paused : Nat → Bool} {q : Nat} {f : Frame} {b' : EgressQueue}
    (h : b.dequeueRR paused = some (q, f, b')) :
    q < qCnt ∧ ∃ rest, b.queues q = f :: rest ∧ b'.queues = Function.update b.queues q rest := by
  rw [dequeueRR] at h
  split at h
  · cases h
  · split at h
    · cases h
    next q' hpick =>
      split at h
      · cases h
      next f' rest hq =>
        cases h
        exact ⟨pick_lt hpick, rest, hq, rfl⟩

theorem drain_suffix (n : Nat) (b : EgressQueue) (q : Nat) :
    (drain n b).queues q <:+ b.queues q := by
  induction n generalizing b with
  | zero => exact List.suffix_rfl
  | succ n ih =>
      rw [drain]
      split
      · exact List.suffix_rfl
      next q' f b' hdeq =>
        obtain ⟨-, rest, hq, hrest⟩ := dequeueRR_eq_some hdeq
        refine (ih b').trans ?_
        rw [hrest]
        by_cases heq : q = q'
        · subst heq
          rw [Function.update_self, hq]
          exact List.suffix_cons f rest
        · rw [Function.update_of_ne heq]

/-- The packets received on a port that wait in a queue. -/
def packets (b : EgressQueue) (q : Nat) : List Packet := (b.queues q).filterMap Frame.packet?

theorem packets_of_queues {b b' : EgressQueue} {q : Nat} {l : List Frame}
    (h : b'.queues = Function.update b.queues q l) :
    b'.packets = Function.update b.packets q (l.filterMap Frame.packet?) := by
  funext j
  rw [packets, h]
  by_cases heq : j = q
  · subst heq
    rw [Function.update_self, Function.update_self]
  · rw [Function.update_of_ne heq, Function.update_of_ne heq, packets]

theorem packets_enqueue_pfc (limits : QueueLimits) (b : EgressQueue) (qIndex q : Nat)
    (pause : Bool) : (b.enqueue limits (.pfc qIndex pause) q).packets = b.packets := by
  rcases enqueue_cases limits b (.pfc qIndex pause) q with h | h
  · funext j
    rw [packets, h, packets]
  · have hnil : (b.queues q ++ [Frame.pfc qIndex pause]).filterMap Frame.packet? = b.packets q := by
      rw [List.filterMap_append, packets]
      exact List.append_nil _
    rw [packets_of_queues h, hnil, Function.update_eq_self]

theorem packets_enqueue_received (limits : QueueLimits) (b : EgressQueue) (p : Packet) (q : Nat) :
    (b.enqueue limits (.received p) q).packets =
      if b.Accepts limits (.received p) q then Function.update b.packets q (b.packets q ++ [p])
      else b.packets := by
  by_cases h : b.Accepts limits (.received p) q
  · rw [if_pos h, packets_of_queues (enqueue_queues h), List.filterMap_append]
    rfl
  · rw [if_neg h]
    funext j
    rw [packets, enqueue_queues_of_not_accepts h, packets]

theorem packets_dequeueRR_received {paused : Nat → Bool} {q : Nat} {p : Packet}
    {b' : EgressQueue} (h : b.dequeueRR paused = some (q, .received p, b')) :
    b.packets = Function.update b'.packets q (p :: b'.packets q) := by
  obtain ⟨-, rest, hq, hrest⟩ := dequeueRR_eq_some h
  rw [packets_of_queues hrest, Function.update_self, Function.update_idem]
  funext j
  by_cases heq : j = q
  · subst heq
    rw [Function.update_self, packets, hq]
    rfl
  · rw [Function.update_of_ne heq]

theorem packets_dequeueRR_pfc {paused : Nat → Bool} {q qIndex : Nat} {pause : Bool}
    {b' : EgressQueue} (h : b.dequeueRR paused = some (q, .pfc qIndex pause, b')) :
    b'.packets = b.packets := by
  obtain ⟨-, rest, hq, hrest⟩ := dequeueRR_eq_some h
  have hsame : rest.filterMap Frame.packet? = b.packets q := by
    rw [packets, hq]
    rfl
  rw [packets_of_queues hrest, hsame, Function.update_eq_self]

theorem packets_drain (n : Nat) (b : EgressQueue) (q : Nat) :
    (drain n b).packets q <:+ b.packets q :=
  (drain_suffix n b q).filterMap _

end EgressQueue

end CollectiveSim.Switch
