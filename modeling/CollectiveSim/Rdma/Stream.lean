import Mathlib
import CollectiveSim.Framework.Slice
import CollectiveSim.Rdma.Connection

/-!
# The byte stream of a connection

The messages pushed on a queue pair, laid end to end in its sequence space, are one byte stream;
every packet built while that layout holds is a slice of it.
-/

namespace CollectiveSim.Rdma

open Framework

/-- The messages occupy the sequence space without gaps from `start` on. -/
def Contiguous : Nat → List RdmaMessage → Prop
  | _, [] => True
  | start, m :: ms => m.startSeq = start ∧ Contiguous (start + m.size) ms

/-- The concatenation of the messages. -/
def stream (ms : List RdmaMessage) : List UInt8 := ms.flatMap RdmaMessage.bytes

@[simp] theorem stream_nil : stream [] = [] := rfl

@[simp] theorem stream_cons (m : RdmaMessage) (ms : List RdmaMessage) :
    stream (m :: ms) = m.bytes ++ stream ms := rfl

@[simp] theorem stream_append (ms ms' : List RdmaMessage) :
    stream (ms ++ ms') = stream ms ++ stream ms' := by
  simp [stream]

theorem stream_length (ms : List RdmaMessage) :
    (stream ms).length = (ms.map RdmaMessage.size).sum := by
  induction ms with
  | nil => rfl
  | cons m ms ih => simp [ih]

theorem contiguous_append (start : Nat) (ms ms' : List RdmaMessage) :
    Contiguous start (ms ++ ms') ↔
      Contiguous start ms ∧ Contiguous (start + (stream ms).length) ms' := by
  induction ms generalizing start with
  | nil => simp [Contiguous]
  | cons m ms ih => simp [Contiguous, ih, and_assoc, Nat.add_assoc]

theorem Contiguous.startSeq_eq {start : Nat} {done rest : List RdmaMessage} {m : RdmaMessage}
    (h : Contiguous start (done ++ m :: rest)) : m.startSeq = start + (stream done).length :=
  ((contiguous_append start done (m :: rest)).mp h).2.1

theorem Contiguous.sliceAt {done rest : List RdmaMessage} {m : RdmaMessage}
    (h : Contiguous 0 (done ++ m :: rest)) :
    SliceAt (stream (done ++ m :: rest)) m.startSeq m.bytes := by
  rw [h.startSeq_eq, Nat.zero_add, stream_append, stream_cons, ← List.append_assoc]
  exact .middle _ _ _

namespace RdmaQueuePair

theorem nextStartSeq_eq {qp : RdmaQueuePair} {done : List RdmaMessage}
    (hlayout : Contiguous 0 (done ++ qp.messages))
    (hfits : (stream (done ++ qp.messages)).length < 2 ^ 64)
    (hempty : qp.messages = [] → qp.sndNxt = (stream done).length) :
    qp.nextStartSeq = (stream (done ++ qp.messages)).length := by
  rcases List.eq_nil_or_concat qp.messages with hnil | ⟨front, back, hcons⟩
  · rw [nextStartSeq, hnil]
    simp [hempty hnil]
  · rw [List.concat_eq_append] at hcons
    rw [hcons, ← List.append_assoc] at hlayout hfits ⊢
    have hstart := hlayout.startSeq_eq
    rw [nextStartSeq, hcons, List.getLast?_concat]
    simp only [stream_append, stream_cons, stream_nil, List.length_append, List.append_nil,
      RdmaMessage.bytes_length] at hstart hfits ⊢
    rw [hstart, Nat.zero_add, u64_of_lt hfits]

theorem completeMessages_le (sndUna : Nat) (done messages : List RdmaMessage)
    (hlayout : Contiguous 0 (done ++ messages))
    (hfits : (stream (done ++ messages)).length < 2 ^ 64)
    (hdone : (stream done).length ≤ sndUna) :
    (stream (done ++ (completeMessages sndUna messages).1)).length ≤ sndUna := by
  induction messages generalizing done with
  | nil => simpa [completeMessages] using hdone
  | cons front rest ih =>
      unfold completeMessages
      have hstart : front.startSeq = (stream done).length := by
        simpa using hlayout.startSeq_eq
      split
      · rename_i hle
        have hassoc : done ++ front :: rest = done ++ [front] ++ rest := by simp
        rw [hassoc] at hlayout hfits
        have hend : front.startSeq + front.size ≤ sndUna := by
          rw [hstart] at hle ⊢
          rwa [u64_of_lt] at hle
          simp at hfits
          omega
        have := ih (done ++ [front]) hlayout hfits (by simpa [hstart] using hend)
        simpa using this
      · simpa using hdone

/-- The packet at `snd_nxt` stays inside the front message, and carries its bytes unless
`snd_nxt` has been set back before the message. -/
theorem getNxtPacket_spec (hw : RdmaHw) {qp : RdmaQueuePair} {front : RdmaMessage}
    {rest : List RdmaMessage} (hmessages : qp.messages = front :: rest)
    (hfits : front.startSeq + front.size < 2 ^ 64) (hleft : 0 < qp.getBytesLeft) :
    (qp.getNxtPacket hw).1.seq = qp.sndNxt ∧
    qp.sndNxt + (qp.getNxtPacket hw).1.payload.length ≤ front.startSeq + front.size ∧
    (qp.getNxtPacket hw).2.sndNxt = qp.sndNxt + (qp.getNxtPacket hw).1.payload.length ∧
    (front.startSeq ≤ qp.sndNxt →
      SliceAt front.bytes (qp.sndNxt - front.startSeq) (qp.getNxtPacket hw).1.payload) := by
  have hbytes : qp.getBytesLeft = front.startSeq + front.size - qp.sndNxt := by
    simp only [getBytesLeft, hmessages, u64_of_lt hfits]
    split <;> omega
  have hlen : (qp.getNxtPacket hw).1.payload.length = min hw.mtu.toNat qp.getBytesLeft := by
    simp [getNxtPacket]
  have hend : qp.sndNxt + (qp.getNxtPacket hw).1.payload.length ≤ front.startSeq + front.size := by
    omega
  refine ⟨rfl, hend, ?_, ?_⟩
  · rw [hlen] at hend ⊢
    exact u64_of_lt (by omega)
  · intro hstart
    have hslice := SliceAt.range_map (fun i : Nat => readSource front.srcDataPtr i)
      (n := front.size) (j := qp.sndNxt - front.startSeq) (k := min hw.mtu.toNat qp.getBytesLeft)
      (by omega)
    have hpayload : (qp.getNxtPacket hw).1.payload =
        (List.range (min hw.mtu.toNat qp.getBytesLeft)).map fun i : Nat =>
          readSource front.srcDataPtr ((qp.sndNxt - front.startSeq + i : Nat) : Int) := by
      simp only [getNxtPacket, getCurSrcDataPtr, hmessages, List.head?_cons, Option.map_some,
        Option.getD_some]
      apply List.map_congr_left
      intro i _
      congr 1
      omega
    rw [hpayload]
    exact hslice

@[simp] theorem getNxtPacket_messages (hw : RdmaHw) (qp : RdmaQueuePair) :
    (qp.getNxtPacket hw).2.messages = qp.messages := rfl

@[simp] theorem getNxtPacket_sndUna (hw : RdmaHw) (qp : RdmaQueuePair) :
    (qp.getNxtPacket hw).2.sndUna = qp.sndUna := rfl

theorem messages_ne_nil_of_getBytesLeft {qp : RdmaQueuePair} (h : 0 < qp.getBytesLeft) :
    ∃ front rest, qp.messages = front :: rest := by
  unfold getBytesLeft at h
  split at h
  · omega
  · exact ⟨_, _, ‹_›⟩

end RdmaQueuePair

end CollectiveSim.Rdma
