import Mathlib
import CollectiveSim.Msccl.Channel
import CollectiveSim.Msccl.Interpreter

/-!
# A collective over many GPUs

Every GPU interprets its algorithm on its own buffers. A connection of a channel carries the bytes of
one GPU's sends to another in order; a fragment is part of one message. A socket send takes its bytes
when it starts, an RDMA send when a fragment leaves.
-/

namespace CollectiveSim.Msccl

open Framework

/-- A channel from one GPU to another. -/
structure ConnId where
  channel : Int
  sender : Nat
  receiver : Nat
  deriving DecidableEq

/-- A send that has started: how much of it has left, and its bytes when they were taken at its
start. -/
structure Message where
  bid : Nat
  sid : Nat
  source : Region
  emitted : Nat
  captured : Option (List UInt8)
  deriving DecidableEq

/-- The sending side of a connection and the fragments under way. -/
structure Connection where
  queue : List Message
  wire : List (List UInt8)
  deriving DecidableEq

structure Collective where
  interp : Nat → Interpreter
  memory : Nat → Memory
  sending : ConnId → Connection
  receiving : ConnId → PeerRecv

/-- What can happen: an event of a GPU runs, the next bytes of a message leave, a send is reported
done, or a fragment arrives. -/
inductive Move
  | fire (gpu : Nat) (e : Event)
  | emit (c : ConnId) (n : Nat)
  | sent (c : ConnId)
  | arrive (c : ConnId)
  deriving DecidableEq

namespace Collective

variable (cfg : AppConfig) (algos : Nat → Option MscclAlgorithm)

/-- A step of one GPU's interpreter. -/
def interpStep (gpu : Nat) (a : Action) (s : Collective) : Option Collective := do
  let algo ← algos gpu
  let i ← (s.interp gpu).step algo a
  return { s with interp := Function.update s.interp gpu i }

/-- The connection that a thread block of `gpu` sends on. -/
def sendConn (gpu : Nat) (tb : MscclThreadBlock) : ConnId :=
  ⟨tb.channelId, gpu, tb.sendpeer.toNat⟩

def recvConn (gpu : Nat) (tb : MscclThreadBlock) : ConnId :=
  ⟨tb.channelId, tb.recvpeer.toNat, gpu⟩

/-- `Send` and `SendRdma`. -/
def send (gpu bid sid : Nat) (tb : MscclThreadBlock) (tran : MscclTransfer) (s : Collective) :
    Option Collective :=
  if tb.sendpeer < 0 ∨ tran.dstoffset < 0 then none
  else do
    let src ← cfg.getBufferPtr gpu tran.srcbuffer tran.srcoffset
    let source : Region := ⟨tran.srcbuffer, src, cfg.bytes tran.count⟩
    let c := sendConn gpu tb
    let message : Message :=
      { bid, sid, source, emitted := 0,
        captured :=
          if cfg.isRdmaPeer gpu c.receiver then none else some ((s.memory gpu).read source) }
    return { s with
      sending := Function.update s.sending c
        { s.sending c with queue := (s.sending c).queue ++ [message] } }

/-- The memory and the peer's entries after a call on the receiving side, and the step it completed
reported to the interpreter. -/
def received (c : ConnId) (r : RecvResult) (s : Collective) : Option Collective :=
  let s := { s with
    memory := Function.update s.memory c.receiver r.memory
    receiving := Function.update s.receiving c r.peer }
  match r.completed with
  | none => some s
  | some (bid, sid) => s.interpStep algos c.receiver (.finish bid sid)

/-- `Recv` and `RecvRedCp`. -/
def recv (gpu bid sid : Nat) (op : RecvOp) (tb : MscclThreadBlock) (tran : MscclTransfer)
    (s : Collective) : Option Collective :=
  -- nothing arrives from a peer with a negative id
  if tb.recvpeer < 0 then some s
  else do
    let c := recvConn gpu tb
    let r ← claimOrRegisterPendingRecv cfg gpu bid sid (cfg.bytes tran.count) tran.dstbuffer
      tran.dstoffset op (s.memory gpu) (s.receiving c)
    s.received algos c r

/-- `NonTransferHandler` for a local copy. -/
def localCopy (gpu bid sid : Nat) (tran : MscclTransfer) (s : Collective) : Option Collective := do
  let dst ← cfg.getBufferPtr gpu tran.dstbuffer tran.dstoffset
  let src ← cfg.getBufferPtr gpu tran.srcbuffer tran.srcoffset
  let data := (s.memory gpu).read ⟨tran.srcbuffer, src, cfg.bytes tran.count⟩
  let s := { s with
    memory := Function.update s.memory gpu ((s.memory gpu).write tran.dstbuffer dst data) }
  s.interpStep algos gpu (.finish bid sid)

/-- What `RunStep` does besides taking the event: types without an implementation end the program. -/
def startTransfer (gpu bid sid : Nat) (tb : MscclThreadBlock) (tran : MscclTransfer)
    (s : Collective) : Option Collective :=
  match tran.type with
  | .send => s.send cfg gpu bid sid tb tran
  | .recv => s.recv cfg algos gpu bid sid .recv tb tran
  | .recvReduceCopy => s.recv cfg algos gpu bid sid .recvReduceCopy tb tran
  | .localCopy => s.localCopy cfg algos gpu bid sid tran
  | .resAdd => some s
  | .recvCopySend | .recvReduceSend | .recvReduceCopySend | .reduce => none

/-- An event of a GPU runs. -/
def fire (gpu : Nat) (e : Event) (s : Collective) : Option Collective := do
  let s ← s.interpStep algos gpu (.fire e)
  match e with
  | .runStep bid sid => do
      let algo ← algos gpu
      let tb := algo.mscclTBs bid
      let tran ← tb.transfers[sid]?
      s.startTransfer cfg algos gpu bid sid tb tran
  | .tryScheduleNextStep _ | .stepCompletion _ _ => return s

/-- The next `n` bytes of the first message leave as one fragment. -/
def emit (c : ConnId) (n : Nat) (s : Collective) : Option Collective :=
  match (s.sending c).queue with
  | [] => none
  | message :: rest =>
      if 0 < n ∧ message.emitted + n ≤ message.source.size then
        let payload :=
          match message.captured with
          | some data => (data.drop message.emitted).take n
          | none =>
              (s.memory c.sender).read
                ⟨message.source.buffer, message.source.addr + message.emitted, n⟩
        some { s with
          sending := Function.update s.sending c {
            queue := { message with emitted := message.emitted + n } :: rest
            wire := (s.sending c).wire ++ [payload] } }
      else none

/-- All bytes of the first message have left, and the sender is told. -/
def sent (c : ConnId) (s : Collective) : Option Collective :=
  match (s.sending c).queue with
  | [] => none
  | message :: rest =>
      if message.emitted = message.source.size then
        { s with
          sending := Function.update s.sending c { s.sending c with queue := rest } }.interpStep
            algos c.sender (.finish message.bid message.sid)
      else none

/-- The first fragment arrives. -/
def arrive (c : ConnId) (s : Collective) : Option Collective :=
  match (s.sending c).wire with
  | [] => none
  | payload :: wire => do
      let r ← onBytesArrivedFromPeer cfg c.receiver payload (s.memory c.receiver) (s.receiving c)
      { s with
        sending := Function.update s.sending c { s.sending c with wire := wire } }.received algos c r

def step (s : Collective) : Move → Option Collective
  | .fire gpu e => s.fire cfg algos gpu e
  | .emit c n => s.emit c n
  | .sent c => s.sent algos c
  | .arrive c => s.arrive cfg algos c

/-- Every GPU with an algorithm starts to interpret it on its own buffers; nothing is under way. -/
def initial (memory : Nat → Memory) : Collective where
  interp gpu := ((algos gpu).bind Interpreter.interpretAlgo).getD ⟨fun _ => .new, [], []⟩
  memory := memory
  sending _ := ⟨[], []⟩
  receiving _ := ⟨[], []⟩

/-! ### What the calls leave behind -/

section

variable {cfg : AppConfig} {algos : Nat → Option MscclAlgorithm} {s s' : Collective} {c : ConnId}

theorem interpStep_some {gpu : Nat} {a : Action}
    (h : s.interpStep algos gpu a = some s') :
    ∃ algo i, algos gpu = some algo ∧ Interpreter.Step algo (s.interp gpu) a i ∧
      s' = { s with interp := Function.update s.interp gpu i } := by
  rw [interpStep] at h
  simp only [Option.bind_eq_bind, Option.bind_eq_some_iff] at h
  obtain ⟨algo, halgo, i, hi, h⟩ := h
  cases h
  exact ⟨algo, i, halgo, Interpreter.step_cases algo hi, rfl⟩

theorem interpStep_frame {a : Action} (h : s.interpStep algos gpu a = some s') :
    s'.memory = s.memory ∧ s'.sending = s.sending ∧ s'.receiving = s.receiving := by
  rw [interpStep, Option.bind_eq_bind, Option.bind_eq_some_iff] at h
  obtain ⟨algo, -, h⟩ := h
  obtain ⟨i, -, h⟩ := Option.bind_eq_some_iff.mp h
  cases h
  exact ⟨rfl, rfl, rfl⟩

theorem received_frame {r : RecvResult} (h : s.received algos c r = some s') :
    s'.sending = s.sending ∧ s'.receiving = Function.update s.receiving c r.peer := by
  simp only [received] at h
  cases hdone : r.completed with
  | none =>
      rw [hdone] at h
      cases h
      exact ⟨rfl, rfl⟩
  | some step =>
      rw [hdone] at h
      obtain ⟨-, hsending, hreceiving⟩ := interpStep_frame h
      exact ⟨hsending, hreceiving⟩

theorem received_cases {r : RecvResult} (h : s.received algos c r = some s') :
    (r.completed = none ∧ s' = { s with
      memory := Function.update s.memory c.receiver r.memory
      receiving := Function.update s.receiving c r.peer }) ∨
    ∃ bid sid algo i, r.completed = some (bid, sid) ∧ algos c.receiver = some algo ∧
      Interpreter.Step algo (s.interp c.receiver) (.finish bid sid) i ∧ s' = { s with
        interp := Function.update s.interp c.receiver i
        memory := Function.update s.memory c.receiver r.memory
        receiving := Function.update s.receiving c r.peer } := by
  rw [received] at h
  cases hdone : r.completed with
  | none =>
      rw [hdone] at h
      cases h
      exact Or.inl ⟨rfl, rfl⟩
  | some p =>
      obtain ⟨bid, sid⟩ := p
      rw [hdone] at h
      right
      obtain ⟨algo, i, halgo, hstep, rfl⟩ := interpStep_some h
      exact ⟨bid, sid, algo, i, rfl, halgo, hstep, rfl⟩

theorem emit_some {n : Nat} (h : s.emit c n = some s') :
    ∃ msg rest payload, (s.sending c).queue = msg :: rest ∧ msg.emitted + n ≤ msg.source.size ∧
      payload ++ (msg.captured.getD ((s.memory c.sender).read msg.source)).drop (msg.emitted + n) =
        (msg.captured.getD ((s.memory c.sender).read msg.source)).drop msg.emitted ∧
      s' = { s with sending := Function.update s.sending c {
        queue := { msg with emitted := msg.emitted + n } :: rest
        wire := (s.sending c).wire ++ [payload] } } := by
  rw [emit] at h
  cases hqueue : (s.sending c).queue with
  | nil =>
      rw [hqueue] at h
      cases h
  | cons msg rest =>
      rw [hqueue] at h
      simp only at h
      split at h
      · rename_i hn
        cases h
        refine ⟨msg, rest, _, rfl, hn.2, ?_, rfl⟩
        rw [← List.drop_drop]
        cases msg.captured with
        | some data => exact List.take_append_drop n _
        | none =>
            simp only [Option.getD_none, Memory.read]
            rw [readRange_drop _ _ (by omega), readRange_drop _ _ (by omega), ← readRange_add]
            congr 1
            omega
      · cases h

theorem sent_some (h : s.sent algos c = some s') :
    ∃ msg rest algo i, (s.sending c).queue = msg :: rest ∧ msg.emitted = msg.source.size ∧
      algos c.sender = some algo ∧ Interpreter.Step algo (s.interp c.sender) (.finish msg.bid msg.sid) i ∧
      s' = { s with
        interp := Function.update s.interp c.sender i
        sending := Function.update s.sending c { s.sending c with queue := rest } } := by
  rw [sent] at h
  cases hqueue : (s.sending c).queue with
  | nil =>
      rw [hqueue] at h
      cases h
  | cons msg rest =>
      rw [hqueue] at h
      simp only at h
      split at h
      · rename_i hall
        obtain ⟨algo, i, halgo, hi, rfl⟩ := interpStep_some h
        exact ⟨msg, rest, algo, i, rfl, hall, halgo, hi, rfl⟩
      · cases h

theorem arrive_some (h : s.arrive cfg algos c = some s') :
    ∃ payload wire r, (s.sending c).wire = payload :: wire ∧
      onBytesArrivedFromPeer cfg c.receiver payload (s.memory c.receiver) (s.receiving c) = some r ∧
      { s with
        sending := Function.update s.sending c { s.sending c with wire := wire } }.received algos c r =
          some s' := by
  rw [arrive] at h
  cases hwire : (s.sending c).wire with
  | nil =>
      rw [hwire] at h
      cases h
  | cons payload wire =>
      rw [hwire] at h
      obtain ⟨r, harrived, hreceived⟩ := Option.bind_eq_some_iff.mp h
      exact ⟨payload, wire, r, rfl, harrived, hreceived⟩

end

end Collective

end CollectiveSim.Msccl
