import Mathlib
import CollectiveSim.Framework.Run
import CollectiveSim.Framework.Smoothing
import CollectiveSim.Rdma.NetDevice

/-!
# The congestion controllers of a queue pair

`RdmaHw` adjusts the rate of a queue pair by DCQCN (mode 1), HPCC (3), TIMELY (7), DCTCP (8) or
HPCC-PINT (10). Rates and what the code keeps in a `double` are exact rationals, in which a quotient
by zero is zero. Times are unbounded.
-/

namespace CollectiveSim.Rdma

open Framework

/-- The attributes of `RdmaHw` that the controllers read, the data rate of the device of the queue
pair, and the statics of `IntHop` and `Pint`. -/
structure RateConfig where
  ccMode : Nat
  nicRate : Nat
  nicRate_pos : 0 < nicRate
  minRate : Nat
  rai : Nat
  rhai : Nat
  dctcpRai : Nat
  g : ℚ
  rateOnFirstCnp : ℚ
  ecnClampTgtRate : Bool
  rpgThreshold : Nat
  fastReact : Bool
  miThresh : Nat
  targetUtil : ℚ
  multipleRate : Bool
  sampleFeedback : Bool
  tmlyAlpha : ℚ
  tmlyBeta : ℚ
  tmlyTLow : Nat
  tmlyTHigh : Nat
  tmlyMinRtt : Nat
  mtu : Nat
  pintSmplThresh : Nat
  multi : Nat
  logBase : ℚ

/-- One record of an `IntHeader`. -/
structure IntHop where
  lineRate : Nat
  time : Nat
  bytes : Nat
  qlen : Nat

namespace IntHop

def byteUnit : Nat := 128
def qlenUnit : Nat := 80
def bytesWidth : Nat := 20
def timeWidth : Nat := 24

def lineRateValues : List Nat :=
  [25000000000, 50000000000, 100000000000, 200000000000, 400000000000, 0, 0, 0]

variable (multi : Nat) (hop b : IntHop)

def getLineRate : Nat := lineRateValues.getD hop.lineRate 0

def getQlen : Nat := u32 (hop.qlen * qlenUnit * multi)

def getBytesDelta : Nat :=
  if b.bytes ≤ hop.bytes then u32 ((hop.bytes - b.bytes) * byteUnit * multi)
  else u32 ((hop.bytes + 2 ^ bytesWidth - b.bytes) * byteUnit * multi)

def getTimeDelta : Nat :=
  if b.time ≤ hop.time then hop.time - b.time else hop.time + 2 ^ timeWidth - b.time

end IntHop

/-- `IntHeader::maxHop`. -/
def maxHop : Nat := 5

/-- `Pint::decode_u`, with `max_concurrent` of 512. -/
def decodeU (cfg : RateConfig) (p : Nat) : ℚ := cfg.logBase ^ p / 512

/-- What a controller reads when an ACK has come: its fields, `snd_nxt` of the queue pair, the round
trip time, and `rand() % 65536`. -/
structure RateAck where
  seq : Nat
  sndNxt : Nat
  cnp : Bool
  nhop : Nat
  hop : Nat → IntHop
  rtt : Nat
  power : Nat
  rand : Nat

/-- `qp->mlx`; an event of it is true while it is scheduled. -/
structure MlxState where
  targetRate : ℚ
  eventUpdateAlpha : Bool
  alpha : ℚ
  alphaCnpArrived : Bool
  firstCnp : Bool
  eventDecreaseRate : Bool
  decreaseCnpArrived : Bool
  rpTimeStage : Nat
  rpTimer : Bool

/-- `qp->hp.hopState[i]`. -/
structure HopState where
  u : ℚ
  rc : ℚ
  incStage : Nat

/-- `qp->hp`. -/
structure HpState where
  lastUpdateSeq : Nat
  curRate : ℚ
  hop : Nat → IntHop
  incStage : Nat
  u : ℚ
  hopState : Nat → HopState

/-- `qp->tmly`. -/
structure TmlyState where
  lastUpdateSeq : Nat
  curRate : ℚ
  incStage : Nat
  lastRtt : Nat
  rttDiff : ℚ

/-- `qp->dctcp`. -/
structure DctcpState where
  lastUpdateSeq : Nat
  caState : Nat
  highSeq : Nat
  alpha : ℚ
  ecnCnt : Nat
  batchSizeOfAlpha : Nat

/-- `qp->hpccPint`. -/
structure HpccPintState where
  lastUpdateSeq : Nat
  curRate : ℚ
  incStage : Nat

/-- A queue pair with the state of its controllers. -/
structure RateQp where
  rate : ℚ
  maxRate : ℚ
  win : UInt32
  baseRtt : Nat
  mlx : MlxState
  hp : HpState
  tmly : TmlyState
  dctcp : DctcpState
  hpccPint : HpccPintState

namespace RateQp

/-- The queue pair of its constructor after `RdmaHw::AddQueuePair`. -/
def initial (cfg : RateConfig) (win : UInt32) (baseRtt : Nat) : RateQp where
  rate := cfg.nicRate
  maxRate := cfg.nicRate
  win := win
  baseRtt := baseRtt
  mlx :=
    { targetRate := if cfg.ccMode = 1 then cfg.nicRate else 0
      eventUpdateAlpha := false
      alpha := 1
      alphaCnpArrived := false
      firstCnp := true
      eventDecreaseRate := false
      decreaseCnpArrived := false
      rpTimeStage := 0
      rpTimer := false }
  hp :=
    { lastUpdateSeq := 0
      curRate := if cfg.ccMode = 3 then cfg.nicRate else 0
      hop := fun _ => ⟨0, 0, 0, 0⟩
      incStage := 0
      u := 1
      hopState := fun _ =>
        { u := 1
          rc := if cfg.ccMode = 3 ∧ cfg.multipleRate then cfg.nicRate else 0
          incStage := 0 } }
  tmly :=
    { lastUpdateSeq := 0
      curRate := if cfg.ccMode = 7 then cfg.nicRate else 0
      incStage := 0
      lastRtt := 0
      rttDiff := 0 }
  dctcp :=
    { lastUpdateSeq := 0
      caState := 0
      highSeq := 0
      alpha := 1
      ecnCnt := 0
      batchSizeOfAlpha := 0 }
  hpccPint :=
    { lastUpdateSeq := 0
      curRate := if cfg.ccMode = 10 then cfg.nicRate else 0
      incStage := 0 }

variable (cfg : RateConfig) (qp : RateQp) (a : RateAck)

/-- The queue pair on the device, whose rates are whole numbers of bits a second. -/
def onNic (nic : NicQp) : NicQp :=
  { nic with win := qp.win.toNat, rate := ⌊qp.rate⌋₊, maxRate := ⌊qp.maxRate⌋₊ }

/-- `RdmaHw::ReceiveCnp`. -/
def receiveCnp (qIndex : Nat) : RateQp :=
  if qIndex = 1 then qp
  else if qp.rate = 0 then
    { qp with
      rate := cfg.nicRate
      mlx := if cfg.ccMode = 1 then { qp.mlx with targetRate := cfg.nicRate } else qp.mlx
      hp :=
        if cfg.ccMode = 3 then
          { qp.hp with
            curRate := cfg.nicRate
            hopState := fun i =>
              if cfg.multipleRate ∧ i < maxHop then { qp.hp.hopState i with rc := cfg.nicRate }
              else qp.hp.hopState i }
        else qp.hp
      tmly := if cfg.ccMode = 7 then { qp.tmly with curRate := cfg.nicRate } else qp.tmly
      hpccPint :=
        if cfg.ccMode = 10 then { qp.hpccPint with curRate := cfg.nicRate } else qp.hpccPint }
  else qp

/-! ### DCQCN -/

def updateAlphaMlx : RateQp :=
  { qp with
    mlx :=
      { qp.mlx with
        alpha :=
          if qp.mlx.alphaCnpArrived then (1 - cfg.g) * qp.mlx.alpha + cfg.g
          else (1 - cfg.g) * qp.mlx.alpha
        alphaCnpArrived := false
        eventUpdateAlpha := true } }

def cnpReceivedMlx : RateQp :=
  if qp.mlx.firstCnp then
    { qp with
      rate := cfg.rateOnFirstCnp * qp.rate
      mlx :=
        { qp.mlx with
          alphaCnpArrived := false
          decreaseCnpArrived := true
          alpha := 1
          eventUpdateAlpha := true
          eventDecreaseRate := true
          targetRate := cfg.rateOnFirstCnp * qp.rate
          firstCnp := false } }
  else { qp with mlx := { qp.mlx with alphaCnpArrived := true, decreaseCnpArrived := true } }

/-- `RdmaHw::CheckRateDecreaseMlx`. -/
def checkRateDecreaseMlx : RateQp :=
  if qp.mlx.decreaseCnpArrived then
    let clamp := cfg.ecnClampTgtRate || qp.mlx.rpTimeStage != 0
    { qp with
      rate := max (cfg.minRate : ℚ) (qp.rate * (1 - qp.mlx.alpha / 2))
      mlx :=
        { qp.mlx with
          targetRate := if clamp then qp.rate else qp.mlx.targetRate
          rpTimeStage := 0
          decreaseCnpArrived := false
          eventDecreaseRate := true
          rpTimer := true } }
  else { qp with mlx := { qp.mlx with eventDecreaseRate := true } }

def fastRecoveryMlx : RateQp := { qp with rate := qp.rate / 2 + qp.mlx.targetRate / 2 }

/-- The body that `ActiveIncreaseMlx` and `HyperIncreaseMlx` share. -/
def increaseMlx (delta : Nat) : RateQp :=
  let target := min (cfg.nicRate : ℚ) (qp.mlx.targetRate + delta)
  { qp with
    rate := qp.rate / 2 + target / 2
    mlx := { qp.mlx with targetRate := target } }

def activeIncreaseMlx : RateQp := qp.increaseMlx cfg cfg.rai

def hyperIncreaseMlx : RateQp := qp.increaseMlx cfg cfg.rhai

def rateIncEventMlx : RateQp :=
  if qp.mlx.rpTimeStage < cfg.rpgThreshold then qp.fastRecoveryMlx
  else if qp.mlx.rpTimeStage = cfg.rpgThreshold then qp.activeIncreaseMlx cfg
  else qp.hyperIncreaseMlx cfg

def rateIncEventTimerMlx : RateQp :=
  let qp' := qp.rateIncEventMlx cfg
  { qp' with mlx := { qp'.mlx with rpTimer := true, rpTimeStage := u32 (qp'.mlx.rpTimeStage + 1) } }

/-! ### HPCC -/

/-- The rate and the stage that HPCC goes to from `cur` at utilization `u`; all its three variants
compute it so. -/
def adjustHp (cur : ℚ) (incStage : Nat) (u : ℚ) : ℚ × Nat :=
  let c := u / cfg.targetUtil
  if 1 ≤ c ∨ cfg.miThresh ≤ incStage then
    (clampRate (cfg.minRate : ℚ) qp.maxRate (cur / c + cfg.rai), 0)
  else (clampRate (cfg.minRate : ℚ) qp.maxRate (cur + cfg.rai), u32 (incStage + 1))

/-- `updated[i]` of the update. -/
def updatedHp (fastReact : Bool) (i : Nat) : Bool :=
  decide (i < a.nhop) &&
    !(cfg.sampleFeedback && fastReact && decide ((a.hop i).getQlen cfg.multi = 0))

/-- The utilization that a hop reports. -/
def hopUtil (i : Nat) : ℚ :=
  let hop := a.hop i
  let old := qp.hp.hop i
  let txRate : ℚ := (hop.getBytesDelta cfg.multi old * 8 : Nat) / (hop.getTimeDelta old / 10 ^ 9)
  txRate / hop.getLineRate +
    (min (hop.getQlen cfg.multi) (old.getQlen cfg.multi) : Nat) * qp.maxRate / hop.getLineRate /
      qp.win.toNat

/-- A utilization smoothed over the base RTT, after `tau` of it. -/
def smoothHp (u now : ℚ) (tau : Nat) : ℚ :=
  let tau := min tau qp.baseRtt
  (u * (qp.baseRtt - tau : Nat) + now * tau) / qp.baseRtt

/-- `U` and `dt` of the aggregate: the largest utilization above zero, and the time that it is of. -/
def maxUtil (fastReact : Bool) : ℚ × Nat :=
  (List.range a.nhop).foldl
    (fun acc i =>
      if updatedHp cfg a fastReact i && decide (acc.1 < qp.hopUtil cfg a i) then
        (qp.hopUtil cfg a i, (a.hop i).getTimeDelta (qp.hp.hop i))
      else acc) (0, 0)

def updatedAny (fastReact : Bool) : Bool := (List.range a.nhop).any (updatedHp cfg a fastReact)

/-- The update of the single rate. -/
def updateAggregateHp (fastReact : Bool) : RateQp :=
  if updatedAny cfg a fastReact then
    let m := qp.maxUtil cfg a fastReact
    let u := qp.smoothHp qp.hp.u m.1 m.2
    let new := qp.adjustHp cfg qp.hp.curRate qp.hp.incStage u
    { qp with
      rate := new.1
      hp :=
        { qp.hp with
          u := u
          hop := fun i => if updatedHp cfg a fastReact i then a.hop i else qp.hp.hop i
          curRate := if fastReact then qp.hp.curRate else new.1
          incStage := if fastReact then qp.hp.incStage else new.2 } }
  else qp

/-- `hopState[i]` with its utilization brought up to date. -/
def hopStateNow (fastReact : Bool) (i : Nat) : HopState :=
  let old := qp.hp.hopState i
  if updatedHp cfg a fastReact i then
    { old with
      u := qp.smoothHp old.u (qp.hopUtil cfg a i) ((a.hop i).getTimeDelta (qp.hp.hop i)) }
  else old

/-- `new_rate_per_hop[i]` and `new_incStage_per_hop[i]` where the hop is updated, and else what it
has. -/
def perHop (fastReact : Bool) (i : Nat) : ℚ × Nat :=
  let st := qp.hopStateNow cfg a fastReact i
  if updatedHp cfg a fastReact i then qp.adjustHp cfg st.rc st.incStage st.u
  else (st.rc, st.incStage)

/-- `new_rate` over all the hops. -/
def minPerHop (fastReact : Bool) : ℚ :=
  (List.range a.nhop).foldl (fun r i => min r (qp.perHop cfg a fastReact i).1) qp.maxRate

/-- The update of a rate per hop. `m_incStage` is set to a variable that has no value, and is not read
in this case. -/
def updatePerHopHp (fastReact : Bool) : RateQp :=
  let new := qp.minPerHop cfg a fastReact
  let any := updatedAny cfg a fastReact
  { qp with
    rate := if any then new else qp.rate
    hp :=
      { qp.hp with
        hop := fun i => if updatedHp cfg a fastReact i then a.hop i else qp.hp.hop i
        curRate := if any && !fastReact then new else qp.hp.curRate
        hopState := fun i =>
          let st := qp.hopStateNow cfg a fastReact i
          if fastReact then st
          else { st with rc := (qp.perHop cfg a fastReact i).1
                         incStage := (qp.perHop cfg a fastReact i).2 } } }

/-- `RdmaHw::UpdateRateHp`; `none` where its assertion fails. -/
def updateRateHp (fastReact : Bool) : Option RateQp :=
  if qp.hp.lastUpdateSeq = 0 then
    if a.nhop ≤ maxHop then
      some { qp with
        hp :=
          { qp.hp with
            lastUpdateSeq := a.sndNxt
            hop := fun i => if i < a.nhop then a.hop i else qp.hp.hop i } }
    else none
  else
    let qp' :=
      if a.nhop ≤ maxHop then
        if cfg.multipleRate then qp.updatePerHopHp cfg a fastReact
        else qp.updateAggregateHp cfg a fastReact
      else qp
    if fastReact then some qp'
    else some { qp' with hp := { qp'.hp with lastUpdateSeq := max qp'.hp.lastUpdateSeq a.sndNxt } }

def fastReactHp : Option RateQp := if cfg.fastReact then qp.updateRateHp cfg a true else some qp

def handleAckHp : Option RateQp :=
  if qp.hp.lastUpdateSeq < a.seq then qp.updateRateHp cfg a false else qp.fastReactHp cfg a

/-! ### TIMELY -/

/-- The factor of the decrease, `none` for an increase. -/
def factorTimely (rttDiff : ℚ) : Option ℚ :=
  let gradient := rttDiff / cfg.tmlyMinRtt
  if a.rtt < cfg.tmlyTLow then none
  else if cfg.tmlyTHigh < a.rtt then some (1 - cfg.tmlyBeta * (1 - (cfg.tmlyTHigh : ℚ) / a.rtt))
  else if gradient ≤ 0 then none
  else
    let c := 1 - cfg.tmlyBeta * gradient
    some (if c < 0 then 0 else c)

/-- The update after the first RTT; the rate that it returns becomes `m_curRate` as well. -/
def adjustTimely : RateQp :=
  let t := qp.tmly
  let rttDiff := (1 - cfg.tmlyAlpha) * t.rttDiff + cfg.tmlyAlpha * ((a.rtt : ℚ) - t.lastRtt)
  match factorTimely cfg a rttDiff with
  | none =>
      let rate := min qp.maxRate (t.curRate + (if t.incStage < 5 then cfg.rai else cfg.rhai : Nat))
      { qp with
        rate := rate
        tmly :=
          { t with curRate := rate, incStage := u32 (t.incStage + 1), rttDiff := rttDiff } }
  | some c =>
      let rate := max (cfg.minRate : ℚ) (t.curRate * c)
      { qp with
        rate := rate
        tmly := { t with curRate := rate, incStage := 0, rttDiff := rttDiff } }

/-- The end of the update: the RTT is kept where `snd_nxt` has moved on. -/
def storeRttTimely : RateQp :=
  if qp.tmly.lastUpdateSeq < a.sndNxt then
    { qp with tmly := { qp.tmly with lastUpdateSeq := a.sndNxt, lastRtt := a.rtt } }
  else qp

/-- `RdmaHw::UpdateRateTimely`, which is called with `us` false only. -/
def updateRateTimely : RateQp :=
  if qp.tmly.lastUpdateSeq ≠ 0 then (qp.adjustTimely cfg a).storeRttTimely a
  else qp.storeRttTimely a

/-- `RdmaHw::HandleAckTimely`; `FastReactTimely` does nothing. -/
def handleAckTimely : RateQp :=
  if qp.tmly.lastUpdateSeq < a.seq then qp.updateRateTimely cfg a else qp

/-! ### DCTCP -/

/-- `frac` of the batch, which is 1 over an empty one. -/
def fracDctcp : ℚ :=
  if qp.dctcp.batchSizeOfAlpha = 0 then 1
  else min 1 ((qp.dctcp.ecnCnt : ℚ) / qp.dctcp.batchSizeOfAlpha)

/-- The update of `m_alpha` where a full RTT of feedback is ready. -/
def updateAlphaDctcp : RateQp :=
  if qp.dctcp.lastUpdateSeq = 0 then
    { qp with
      dctcp :=
        { qp.dctcp with
          lastUpdateSeq := a.sndNxt
          batchSizeOfAlpha := u32 (a.sndNxt / cfg.mtu + 1) } }
  else
    { qp with
      dctcp :=
        { qp.dctcp with
          alpha := (1 - cfg.g) * qp.dctcp.alpha + cfg.g * qp.fracDctcp
          lastUpdateSeq := a.sndNxt
          ecnCnt := 0
          batchSizeOfAlpha := u32 (sub64 a.sndNxt a.seq / cfg.mtu + 1) } }

/-- The count of marks, and the update where a full RTT of feedback is ready. -/
def feedbackDctcp : RateQp :=
  let counted :=
    { qp with dctcp := { qp.dctcp with ecnCnt := u32 (qp.dctcp.ecnCnt + a.cnp.toNat) } }
  if qp.dctcp.lastUpdateSeq < a.seq then counted.updateAlphaDctcp cfg a else counted

/-- `m_caState` after the check whether CWR ends. -/
def exitCwr : Nat :=
  if qp.dctcp.caState = 1 ∧ qp.dctcp.highSeq < a.seq then 0 else qp.dctcp.caState

/-- The reduction of the rate by an ECN mark outside CWR. -/
def reduceDctcp : RateQp :=
  if a.cnp ∧ qp.exitCwr a = 0 then
    { qp with
      rate := max (cfg.minRate : ℚ) (qp.rate * (1 - qp.dctcp.alpha / 2))
      dctcp := { qp.dctcp with caState := 1, highSeq := a.sndNxt } }
  else { qp with dctcp := { qp.dctcp with caState := qp.exitCwr a } }

def handleAckDctcp : RateQp :=
  let reduced := (qp.feedbackDctcp cfg a).reduceDctcp cfg a
  if reduced.dctcp.caState = 0 ∧ qp.dctcp.lastUpdateSeq < a.seq then
    { reduced with rate := min reduced.maxRate (reduced.rate + cfg.dctcpRai) }
  else reduced

/-! ### HPCC-PINT -/

def updateRateHpPint (fastReact : Bool) : RateQp :=
  let p := qp.hpccPint
  if p.lastUpdateSeq = 0 then { qp with hpccPint := { p with lastUpdateSeq := a.sndNxt } }
  else
    let new := qp.adjustHp cfg p.curRate p.incStage (decodeU cfg a.power)
    if fastReact then { qp with rate := new.1 }
    else
      { qp with
        rate := new.1
        hpccPint :=
          { lastUpdateSeq := max p.lastUpdateSeq a.sndNxt
            curRate := new.1
            incStage := new.2 } }

def handleAckHpPint : RateQp :=
  if cfg.pintSmplThresh ≤ a.rand then qp
  else qp.updateRateHpPint cfg a !decide (qp.hpccPint.lastUpdateSeq < a.seq)

/-! ### The system -/

/-- The part of `RdmaHw::ReceiveAck` that adjusts the rate. -/
def receiveAck : Option RateQp :=
  let qp' := if a.cnp ∧ cfg.ccMode = 1 then qp.cnpReceivedMlx cfg else qp
  if cfg.ccMode = 3 then qp'.handleAckHp cfg a
  else if cfg.ccMode = 7 then some (qp'.handleAckTimely cfg a)
  else if cfg.ccMode = 8 then some (qp'.handleAckDctcp cfg a)
  else if cfg.ccMode = 10 then some (qp'.handleAckHpPint cfg a)
  else some qp'

end RateQp

/-- What reaches the controllers: an ACK, a CNP packet, or one of the timers of DCQCN. -/
inductive RateEvent
  | ack (a : RateAck)
  | cnp (qIndex : Nat)
  | updateAlpha
  | decreaseRate
  | rateInc

/-- A timer that is not scheduled cannot fire. -/
def RateQp.step (cfg : RateConfig) (qp : RateQp) : RateEvent → Option RateQp
  | .ack a => qp.receiveAck cfg a
  | .cnp qIndex => some (qp.receiveCnp cfg qIndex)
  | .updateAlpha => if qp.mlx.eventUpdateAlpha then some (qp.updateAlphaMlx cfg) else none
  | .decreaseRate => if qp.mlx.eventDecreaseRate then some (qp.checkRateDecreaseMlx cfg) else none
  | .rateInc => if qp.mlx.rpTimer then some (qp.rateIncEventTimerMlx cfg) else none

end CollectiveSim.Rdma
