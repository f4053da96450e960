import CollectiveSim.Rdma.RateControl

/-!
# The bounds of the rate and of the window

Every controller but one clamps what it computes to `m_minRate` and `m_max_rate`. The cut at the first
CNP does not, and a gain above one or a negative `TimelyBeta` turns a cut into a rise.
-/

namespace CollectiveSim.Rdma

open Framework

/-- The attributes with which no event leads out of the bounds. -/
structure RateConfig.Keeps (cfg : RateConfig) : Prop where
  firstCut : cfg.ccMode = 1 → (cfg.minRate : ℚ) ≤ cfg.rateOnFirstCnp * cfg.nicRate
  gain : cfg.ccMode = 1 ∨ cfg.ccMode = 8 → cfg.g ≤ 1
  beta : cfg.ccMode = 7 → 0 ≤ cfg.tmlyBeta

theorem RateConfig.not_mlx (cfg : RateConfig) {mode : Nat} {P : Prop} (hmode : cfg.ccMode = mode)
    (hne : mode ≠ 1) : cfg.ccMode = 1 → P := by
  intro hone
  exact absurd (hmode.symm.trans hone) hne

namespace RateQp

/-- The rate lies between `m_minRate` and `m_max_rate`, and under the target in mode 1; the variable
window lies between 1 and `m_win`. -/
structure Bounded (cfg : RateConfig) (qp : RateQp) : Prop where
  min_le : (cfg.minRate : ℚ) ≤ qp.rate
  le_max : qp.rate ≤ qp.maxRate
  le_target : cfg.ccMode = 1 → qp.rate ≤ qp.mlx.targetRate
  win_pos : ∀ nic, 1 ≤ (qp.onNic nic).getWin true
  win_le : ∀ nic, (qp.onNic nic).getWin true ≤ qp.win.toNat

/-- What DCQCN keeps besides. -/
structure MlxInv (cfg : RateConfig) (qp : RateQp) : Prop where
  fresh : qp.mlx.firstCnp = true → qp.rate = cfg.nicRate
  le_target : qp.rate ≤ qp.mlx.targetRate
  target_le : qp.mlx.targetRate ≤ cfg.nicRate
  share : IsShare cfg.g qp.mlx.alpha

/-- The invariant of a queue pair with the window `win`. No timer runs before the first CNP, which
only mode 1 takes note of. -/
structure RateInv (cfg : RateConfig) (win : UInt32) (qp : RateQp) : Prop where
  min_le : (cfg.minRate : ℚ) ≤ qp.rate
  le_nic : qp.rate ≤ cfg.nicRate
  maxRate_eq : qp.maxRate = cfg.nicRate
  win_eq : qp.win = win
  idle : qp.mlx.firstCnp = true → qp.mlx.eventUpdateAlpha = false ∧
    qp.mlx.eventDecreaseRate = false ∧ qp.mlx.rpTimer = false
  first : cfg.ccMode ≠ 1 → qp.mlx.firstCnp = true
  mlx : cfg.ccMode = 1 → qp.MlxInv cfg
  rc : cfg.ccMode = 3 → cfg.multipleRate = true →
    ∀ i, (cfg.minRate : ℚ) ≤ (qp.hp.hopState i).rc
  tmly : cfg.ccMode = 7 → (cfg.minRate : ℚ) ≤ qp.tmly.curRate ∧ qp.tmly.curRate ≤ cfg.nicRate
  dctcp : cfg.ccMode = 8 → IsShare cfg.g qp.dctcp.alpha

/-! ### The window -/

theorem getWin_onNic {qp : RateQp} {cfg : RateConfig} (hmax : qp.maxRate = cfg.nicRate)
    (hwin : qp.win ≠ 0) (nic : NicQp) :
    (qp.onNic nic).getWin true =
      max 1 (u64 (qp.win.toNat * ⌊qp.rate⌋₊) / cfg.nicRate) := by
  have hne : qp.win.toNat ≠ 0 := by
    intro hzero
    apply hwin
    rw [← UInt32.toNat_inj, hzero]
    rfl
  rw [NicQp.getWin, onNic, if_neg hne, if_pos rfl, hmax, Nat.floor_natCast]
  by_cases hzero : u64 (qp.win.toNat * ⌊qp.rate⌋₊) / cfg.nicRate = 0
  · simp [hzero]
  · simp only [hzero, if_false]
    rw [max_eq_right (Nat.one_le_iff_ne_zero.mpr hzero)]

theorem getWin_le {qp : RateQp} {cfg : RateConfig} (hmax : qp.maxRate = cfg.nicRate)
    (hrate : qp.rate ≤ cfg.nicRate) (hwin : qp.win ≠ 0) (nic : NicQp) :
    (qp.onNic nic).getWin true ≤ qp.win.toNat := by
  have hfloor : ⌊qp.rate⌋₊ ≤ cfg.nicRate := by
    have hmono := Nat.floor_le_floor hrate
    rwa [Nat.floor_natCast] at hmono
  have hpos : 1 ≤ qp.win.toNat := by
    rw [Nat.one_le_iff_ne_zero]
    intro hzero
    apply hwin
    rw [← UInt32.toNat_inj, hzero]
    rfl
  rw [getWin_onNic hmax hwin]
  apply max_le hpos
  calc
    u64 (qp.win.toNat * ⌊qp.rate⌋₊) / cfg.nicRate
      ≤ qp.win.toNat * cfg.nicRate / cfg.nicRate := by
        apply Nat.div_le_div_right
        exact (Nat.mod_le _ _).trans (Nat.mul_le_mul_left _ hfloor)
    _ = qp.win.toNat := Nat.mul_div_cancel _ cfg.nicRate_pos

theorem getWin_zero {qp : RateQp} (hwin : qp.win = 0) (nic : NicQp) :
    (qp.onNic nic).getWin true = 0 := by
  simp [NicQp.getWin, onNic, hwin]

theorem RateInv.bounded {cfg : RateConfig} {win : UInt32} {qp : RateQp} (h : qp.RateInv cfg win)
    (hwin : win ≠ 0) : qp.Bounded cfg where
  min_le := h.min_le
  le_max := by
    rw [h.maxRate_eq]
    exact h.le_nic
  le_target := fun hmode => (h.mlx hmode).le_target
  win_pos := by
    intro nic
    rw [getWin_onNic h.maxRate_eq (by rwa [h.win_eq])]
    exact le_max_left _ _
  win_le := getWin_le h.maxRate_eq h.le_nic (by rwa [h.win_eq])

/-! ### What each handler keeps -/

section

variable {cfg : RateConfig} {win : UInt32} {qp : RateQp}

theorem rateInv_initial (hmin : cfg.minRate ≤ cfg.nicRate) (win : UInt32) (baseRtt : Nat) :
    (initial cfg win baseRtt).RateInv cfg win where
  min_le := Nat.cast_le.mpr hmin
  le_nic := le_refl _
  maxRate_eq := rfl
  win_eq := rfl
  idle := fun _ => ⟨rfl, rfl, rfl⟩
  first := fun _ => rfl
  mlx := by
    intro hmode
    constructor
    · exact fun _ => rfl
    · simp [initial, hmode]
    · simp [initial, hmode]
    · exact isShare_one cfg.g
  rc := by
    intro hmode hmulti i
    simp [initial, hmode, hmulti, hmin]
  tmly := by
    intro hmode
    simp [initial, hmode, hmin]
  dctcp := fun _ => isShare_one cfg.g

theorem RateInv.mode_eq_one (h : qp.RateInv cfg win) (hfirst : qp.mlx.firstCnp = false) :
    cfg.ccMode = 1 := by
  by_contra hmode
  rw [h.first hmode] at hfirst
  cases hfirst

theorem RateInv.firstCnp_eq_false (h : qp.RateInv cfg win)
    (hevent : qp.mlx.eventUpdateAlpha = true ∨ qp.mlx.eventDecreaseRate = true ∨
      qp.mlx.rpTimer = true) : qp.mlx.firstCnp = false := by
  cases hcnp : qp.mlx.firstCnp with
  | false => rfl
  | true =>
      obtain ⟨halpha, hdecrease, htimer⟩ := h.idle hcnp
      simp [halpha, hdecrease, htimer] at hevent

theorem RateInv.receiveCnp (h : qp.RateInv cfg win) (hmin : cfg.minRate ≤ cfg.nicRate)
    (qIndex : Nat) : (qp.receiveCnp cfg qIndex).RateInv cfg win := by
  rw [RateQp.receiveCnp]
  split
  · exact h
  split
  · rename_i hzero
    constructor
    · exact Nat.cast_le.mpr hmin
    · exact le_refl _
    · exact h.maxRate_eq
    · exact h.win_eq
    · by_cases hmode : cfg.ccMode = 1
      · simpa [hmode] using h.idle
      · simpa [hmode] using h.idle
    · intro hmode
      simpa [hmode] using h.first hmode
    · intro hmode
      constructor
      · exact fun _ => rfl
      · simp [hmode]
      · simp [hmode]
      · simpa [hmode] using (h.mlx hmode).share
    · intro hmode hmulti i
      by_cases hi : i < maxHop
      · simp [hmode, hmulti, hi, hmin]
      · simpa [hmode, hmulti, hi] using h.rc hmode hmulti i
    · intro hmode
      simp [hmode, hmin]
    · exact h.dctcp
  · exact h

/-! #### DCQCN -/

theorem alpha_updateAlphaMlx (cfg : RateConfig) (qp : RateQp) :
    (qp.updateAlphaMlx cfg).mlx.alpha =
      ewma cfg.g qp.mlx.alpha (if qp.mlx.alphaCnpArrived then 1 else 0) := by
  by_cases harrived : qp.mlx.alphaCnpArrived = true
  · simp [RateQp.updateAlphaMlx, ewma, harrived]
  · simp [RateQp.updateAlphaMlx, ewma, harrived]

theorem RateInv.updateAlphaMlx (h : qp.RateInv cfg win) (hk : cfg.Keeps)
    (hevent : qp.mlx.eventUpdateAlpha = true) : (qp.updateAlphaMlx cfg).RateInv cfg win := by
  have hfirst := h.firstCnp_eq_false (.inl hevent)
  have hmode := h.mode_eq_one hfirst
  have hm := h.mlx hmode
  have hshare : IsShare cfg.g (qp.updateAlphaMlx cfg).mlx.alpha := by
    rw [alpha_updateAlphaMlx]
    by_cases harrived : qp.mlx.alphaCnpArrived = true
    · rw [if_pos harrived]
      exact hm.share.ewma (hk.gain (.inl hmode)) zero_le_one (le_refl 1)
    · rw [if_neg harrived]
      exact hm.share.ewma (hk.gain (.inl hmode)) (le_refl 0) zero_le_one
  exact
    { h with
      idle := by
        intro hcnp
        have hcnp' : qp.mlx.firstCnp = true := hcnp
        rw [hfirst] at hcnp'
        cases hcnp'
      mlx := fun _ => ⟨hm.fresh, hm.le_target, hm.target_le, hshare⟩ }

/-- The cut at the first CNP: the rate is still that of the device. -/
theorem RateInv.cnpReceivedMlx (h : qp.RateInv cfg win) (hk : cfg.Keeps) (hmode : cfg.ccMode = 1)
    (hle : cfg.rateOnFirstCnp ≤ 1) : (qp.cnpReceivedMlx cfg).RateInv cfg win := by
  have hm := h.mlx hmode
  rw [RateQp.cnpReceivedMlx]
  split
  · rename_i hfirst
    have hrate := hm.fresh hfirst
    have hmin := hk.firstCut hmode
    have hcut : cfg.rateOnFirstCnp * (cfg.nicRate : ℚ) ≤ cfg.nicRate :=
      mul_le_of_le_one_left (Nat.cast_nonneg _) hle
    rw [hrate]
    exact
      { min_le := hmin
        le_nic := hcut
        maxRate_eq := h.maxRate_eq
        win_eq := h.win_eq
        idle := fun hcnp => (by cases hcnp)
        first := fun hne => absurd hmode hne
        mlx := fun _ =>
          ⟨fun hcnp => (by cases hcnp), le_refl _, hcut, isShare_one cfg.g⟩
        rc := h.rc
        tmly := h.tmly
        dctcp := h.dctcp }
  · exact { h with mlx := fun _ => ⟨hm.fresh, hm.le_target, hm.target_le, hm.share⟩ }

theorem RateInv.checkRateDecreaseMlx (h : qp.RateInv cfg win)
    (hevent : qp.mlx.eventDecreaseRate = true) :
    (qp.checkRateDecreaseMlx cfg).RateInv cfg win := by
  have hfirst := h.firstCnp_eq_false (.inr (.inl hevent))
  have hmode := h.mode_eq_one hfirst
  have hm := h.mlx hmode
  have hnot : qp.mlx.firstCnp ≠ true := by simp [hfirst]
  have hnonneg : 0 ≤ qp.rate := le_trans (Nat.cast_nonneg _) h.min_le
  rw [RateQp.checkRateDecreaseMlx]
  split
  · have hcut : cutRate (cfg.minRate : ℚ) qp.rate qp.mlx.alpha ≤ qp.rate :=
      cutRate_le h.min_le hnonneg hm.share.nonneg
    exact
      { min_le := le_cutRate _ _ _
        le_nic := hcut.trans h.le_nic
        maxRate_eq := h.maxRate_eq
        win_eq := h.win_eq
        idle := fun hcnp => absurd hcnp hnot
        first := h.first
        mlx := by
          intro _
          constructor
          · exact fun hcnp => absurd hcnp hnot
          · apply hcut.trans
            dsimp only
            split
            · exact le_refl _
            · exact hm.le_target
          · dsimp only
            split
            · exact h.le_nic
            · exact hm.target_le
          · exact hm.share
        rc := h.rc
        tmly := h.tmly
        dctcp := h.dctcp }
  · exact
      { h with
        idle := fun hcnp => absurd hcnp hnot
        mlx := fun _ => ⟨hm.fresh, hm.le_target, hm.target_le, hm.share⟩ }

theorem RateInv.halfway (h : qp.RateInv cfg win) (hmode : cfg.ccMode = 1)
    (hnot : qp.mlx.firstCnp ≠ true) {target : ℚ} (hle : qp.rate ≤ target)
    (hnic : target ≤ cfg.nicRate) :
    RateInv cfg win
      { qp with
        rate := qp.rate / 2 + target / 2
        mlx := { qp.mlx with targetRate := target } } :=
  { h with
    min_le := h.min_le.trans (le_halfway hle)
    le_nic := (halfway_le hle).trans hnic
    mlx := fun _ =>
      ⟨fun hcnp => absurd hcnp hnot, halfway_le hle, hnic, (h.mlx hmode).share⟩ }

theorem RateInv.increaseMlx (h : qp.RateInv cfg win) (hmode : cfg.ccMode = 1)
    (hnot : qp.mlx.firstCnp ≠ true) (delta : Nat) :
    (qp.increaseMlx cfg delta).RateInv cfg win := by
  apply h.halfway hmode hnot
  · have hdelta : (0 : ℚ) ≤ delta := Nat.cast_nonneg delta
    exact le_min h.le_nic (by linarith [(h.mlx hmode).le_target])
  · exact min_le_left _ _

theorem rateIncEventMlx_firstCnp (cfg : RateConfig) (qp : RateQp) :
    (qp.rateIncEventMlx cfg).mlx.firstCnp = qp.mlx.firstCnp := by
  rw [RateQp.rateIncEventMlx]
  split
  · rfl
  split
  · rfl
  · rfl

theorem RateInv.rateIncEventMlx (h : qp.RateInv cfg win) (hmode : cfg.ccMode = 1)
    (hnot : qp.mlx.firstCnp ≠ true) : (qp.rateIncEventMlx cfg).RateInv cfg win := by
  have hm := h.mlx hmode
  rw [RateQp.rateIncEventMlx]
  split
  · exact h.halfway hmode hnot hm.le_target hm.target_le
  split
  · exact h.increaseMlx hmode hnot cfg.rai
  · exact h.increaseMlx hmode hnot cfg.rhai

theorem RateInv.rateIncEventTimerMlx (h : qp.RateInv cfg win) (hevent : qp.mlx.rpTimer = true) :
    (qp.rateIncEventTimerMlx cfg).RateInv cfg win := by
  have hfirst := h.firstCnp_eq_false (.inr (.inr hevent))
  have hmode := h.mode_eq_one hfirst
  have hnot : qp.mlx.firstCnp ≠ true := by simp [hfirst]
  have hnext := h.rateIncEventMlx hmode hnot
  have hm := hnext.mlx hmode
  rw [← rateIncEventMlx_firstCnp cfg] at hnot
  exact
    { hnext with
      idle := fun hcnp => absurd hcnp hnot
      mlx := fun _ => ⟨hm.fresh, hm.le_target, hm.target_le, hm.share⟩ }

/-! #### HPCC -/

theorem adjustHp_le (cfg : RateConfig) (qp : RateQp) (cur : ℚ) (incStage : Nat) (u : ℚ) :
    (qp.adjustHp cfg cur incStage u).1 ≤ qp.maxRate := by
  simp only [adjustHp]
  split
  · exact clampRate_le _ _ _
  · exact clampRate_le _ _ _

theorem le_adjustHp (hmax : (cfg.minRate : ℚ) ≤ qp.maxRate) (cur : ℚ) (incStage : Nat) (u : ℚ) :
    (cfg.minRate : ℚ) ≤ (qp.adjustHp cfg cur incStage u).1 := by
  simp only [adjustHp]
  split
  · exact le_clampRate hmax _
  · exact le_clampRate hmax _

theorem RateInv.min_le_max (h : qp.RateInv cfg win) : (cfg.minRate : ℚ) ≤ qp.maxRate := by
  rw [h.maxRate_eq]
  exact h.min_le.trans h.le_nic

theorem RateInv.adjustHp_le_nic (h : qp.RateInv cfg win) (cur : ℚ) (incStage : Nat) (u : ℚ) :
    (qp.adjustHp cfg cur incStage u).1 ≤ cfg.nicRate := by
  rw [← h.maxRate_eq]
  exact adjustHp_le cfg qp cur incStage u

theorem hopStateNow_rc (cfg : RateConfig) (qp : RateQp) (a : RateAck) (fastReact : Bool) (i : Nat) :
    (qp.hopStateNow cfg a fastReact i).rc = (qp.hp.hopState i).rc := by
  simp only [hopStateNow]
  split
  · rfl
  · rfl

theorem le_perHop (hmax : (cfg.minRate : ℚ) ≤ qp.maxRate)
    (hrc : ∀ i, (cfg.minRate : ℚ) ≤ (qp.hp.hopState i).rc) (a : RateAck) (fastReact : Bool)
    (i : Nat) : (cfg.minRate : ℚ) ≤ (qp.perHop cfg a fastReact i).1 := by
  simp only [perHop]
  split
  · exact le_adjustHp hmax _ _ _
  · rw [hopStateNow_rc]
    exact hrc i

theorem le_foldl_min {lo start : ℚ} {f : Nat → ℚ} (is : List Nat) (hstart : lo ≤ start)
    (hf : ∀ i, lo ≤ f i) : lo ≤ is.foldl (fun r i => min r (f i)) start := by
  induction is generalizing start with
  | nil => exact hstart
  | cons i is ih => exact ih (le_min hstart (hf i))

theorem foldl_min_le (f : Nat → ℚ) (is : List Nat) (start : ℚ) :
    is.foldl (fun r i => min r (f i)) start ≤ start := by
  induction is generalizing start with
  | nil => exact le_refl start
  | cons i is ih => exact (ih (min start (f i))).trans (min_le_left start (f i))

theorem RateInv.updatePerHopHp (h : qp.RateInv cfg win) (hmode : cfg.ccMode = 3)
    (hmulti : cfg.multipleRate = true) (a : RateAck) (fastReact : Bool) :
    (qp.updatePerHopHp cfg a fastReact).RateInv cfg win := by
  have hper := le_perHop h.min_le_max (h.rc hmode hmulti) a fastReact
  have hge : (cfg.minRate : ℚ) ≤ qp.minPerHop cfg a fastReact := le_foldl_min _ h.min_le_max hper
  have hle : qp.minPerHop cfg a fastReact ≤ cfg.nicRate := by
    rw [← h.maxRate_eq]
    exact foldl_min_le _ _ _
  rw [RateQp.updatePerHopHp]
  exact
    { h with
      min_le := by
        dsimp only
        split
        · exact hge
        · exact h.min_le
      le_nic := by
        dsimp only
        split
        · exact hle
        · exact h.le_nic
      mlx := cfg.not_mlx hmode (by decide)
      rc := by
        intro _ _ i
        dsimp only
        split
        · rw [hopStateNow_rc]
          exact h.rc hmode hmulti i
        · exact hper i }

theorem RateInv.updateAggregateHp (h : qp.RateInv cfg win) (hmode : cfg.ccMode = 3)
    (a : RateAck) (fastReact : Bool) : (qp.updateAggregateHp cfg a fastReact).RateInv cfg win := by
  rw [RateQp.updateAggregateHp]
  split
  · exact
      { h with
        min_le := le_adjustHp h.min_le_max _ _ _
        le_nic := h.adjustHp_le_nic _ _ _
        mlx := cfg.not_mlx hmode (by decide)
        rc := h.rc }
  · exact h

theorem RateInv.updateRateHp (h : qp.RateInv cfg win) (hmode : cfg.ccMode = 3) {a : RateAck}
    {fastReact : Bool} {qp' : RateQp} (hstep : qp.updateRateHp cfg a fastReact = some qp') :
    qp'.RateInv cfg win := by
  rw [RateQp.updateRateHp] at hstep
  split at hstep
  · split at hstep
    · cases hstep
      exact { h with mlx := cfg.not_mlx hmode (by decide), rc := h.rc }
    · cases hstep
  · have hupdate : (if a.nhop ≤ maxHop then
        if cfg.multipleRate then qp.updatePerHopHp cfg a fastReact
        else qp.updateAggregateHp cfg a fastReact
        else qp).RateInv cfg win := by
      split
      · split
        · rename_i hmulti
          exact h.updatePerHopHp hmode hmulti a fastReact
        · exact h.updateAggregateHp hmode a fastReact
      · exact h
    simp only at hstep
    split at hstep
    · cases hstep
      exact hupdate
    · cases hstep
      exact { hupdate with mlx := cfg.not_mlx hmode (by decide), rc := hupdate.rc }

theorem RateInv.handleAckHp (h : qp.RateInv cfg win) (hmode : cfg.ccMode = 3) {a : RateAck}
    {qp' : RateQp} (hstep : qp.handleAckHp cfg a = some qp') : qp'.RateInv cfg win := by
  rw [RateQp.handleAckHp] at hstep
  split at hstep
  · exact h.updateRateHp hmode hstep
  · rw [fastReactHp] at hstep
    split at hstep
    · exact h.updateRateHp hmode hstep
    · cases hstep
      exact h

/-! #### TIMELY -/

theorem factorTimely_le (hk : cfg.Keeps) (hmode : cfg.ccMode = 7) {a : RateAck} {rttDiff c : ℚ}
    (hc : factorTimely cfg a rttDiff = some c) : c ≤ 1 := by
  have hbeta := hk.beta hmode
  simp only [factorTimely] at hc
  split at hc
  · cases hc
  split at hc
  · rename_i hhigh
    cases hc
    have hfrac : (cfg.tmlyTHigh : ℚ) / a.rtt ≤ 1 := by
      apply div_le_one_of_le₀ (Nat.cast_le.mpr (Nat.le_of_lt hhigh)) (Nat.cast_nonneg _)
    have hcut := mul_nonneg hbeta (sub_nonneg.mpr hfrac)
    linarith
  split at hc
  · cases hc
  · rename_i hgradient
    have hcut := mul_nonneg hbeta (le_of_not_ge hgradient)
    cases hc
    split
    · exact zero_le_one
    · linarith

theorem RateInv.adjustTimely (h : qp.RateInv cfg win) (hk : cfg.Keeps) (hmode : cfg.ccMode = 7)
    (a : RateAck) : (qp.adjustTimely cfg a).RateInv cfg win := by
  obtain ⟨hge, hle⟩ := h.tmly hmode
  simp only [RateQp.adjustTimely]
  split
  · have hup (delta : Nat) : (cfg.minRate : ℚ) ≤ min qp.maxRate (qp.tmly.curRate + delta) := by
      have hdelta : (0 : ℚ) ≤ delta := Nat.cast_nonneg delta
      exact le_min h.min_le_max (by linarith)
    have hcap (r : ℚ) : min qp.maxRate r ≤ cfg.nicRate := by
      rw [← h.maxRate_eq]
      exact min_le_left _ _
    exact
      { h with
        min_le := hup _
        le_nic := hcap _
        mlx := cfg.not_mlx hmode (by decide)
        tmly := fun _ => ⟨hup _, hcap _⟩ }
  · rename_i c hc
    have hcut : qp.tmly.curRate * c ≤ cfg.nicRate := by
      have hnonneg : 0 ≤ qp.tmly.curRate := le_trans (Nat.cast_nonneg _) hge
      exact (mul_le_of_le_one_right hnonneg (factorTimely_le hk hmode hc)).trans hle
    have hcap := max_le (hge.trans hle) hcut
    exact
      { h with
        min_le := le_max_left _ _
        le_nic := hcap
        mlx := cfg.not_mlx hmode (by decide)
        tmly := fun _ => ⟨le_max_left _ _, hcap⟩ }

theorem RateInv.storeRttTimely (h : qp.RateInv cfg win) (hmode : cfg.ccMode = 7) (a : RateAck) :
    (qp.storeRttTimely a).RateInv cfg win := by
  rw [RateQp.storeRttTimely]
  split
  · exact { h with mlx := cfg.not_mlx hmode (by decide), tmly := h.tmly }
  · exact h

theorem RateInv.handleAckTimely (h : qp.RateInv cfg win) (hk : cfg.Keeps) (hmode : cfg.ccMode = 7)
    (a : RateAck) : (qp.handleAckTimely cfg a).RateInv cfg win := by
  rw [RateQp.handleAckTimely, updateRateTimely]
  split
  · split
    · exact (h.adjustTimely hk hmode a).storeRttTimely hmode a
    · exact h.storeRttTimely hmode a
  · exact h

/-! #### DCTCP -/

theorem fracDctcp_nonneg (qp : RateQp) : 0 ≤ qp.fracDctcp := by
  rw [fracDctcp]
  split
  · exact zero_le_one
  · exact le_min zero_le_one (div_nonneg (Nat.cast_nonneg _) (Nat.cast_nonneg _))

theorem fracDctcp_le_one (qp : RateQp) : qp.fracDctcp ≤ 1 := by
  rw [fracDctcp]
  split
  · exact le_refl 1
  · exact min_le_left _ _

theorem RateInv.updateAlphaDctcp (h : qp.RateInv cfg win) (hk : cfg.Keeps) (hmode : cfg.ccMode = 8)
    (a : RateAck) : (qp.updateAlphaDctcp cfg a).RateInv cfg win := by
  have hshare := (h.dctcp hmode).ewma (hk.gain (.inr hmode)) qp.fracDctcp_nonneg
    qp.fracDctcp_le_one
  rw [RateQp.updateAlphaDctcp]
  split
  · exact { h with mlx := cfg.not_mlx hmode (by decide), dctcp := h.dctcp }
  · exact { h with mlx := cfg.not_mlx hmode (by decide), dctcp := fun _ => hshare }

theorem RateInv.feedbackDctcp (h : qp.RateInv cfg win) (hk : cfg.Keeps) (hmode : cfg.ccMode = 8)
    (a : RateAck) : (qp.feedbackDctcp cfg a).RateInv cfg win := by
  have hcount (n : Nat) : RateInv cfg win { qp with dctcp := { qp.dctcp with ecnCnt := n } } :=
    { h with mlx := cfg.not_mlx hmode (by decide), dctcp := h.dctcp }
  rw [RateQp.feedbackDctcp]
  split
  · exact (hcount _).updateAlphaDctcp hk hmode a
  · exact hcount _

theorem RateInv.reduceDctcp (h : qp.RateInv cfg win) (hmode : cfg.ccMode = 8) (a : RateAck) :
    (qp.reduceDctcp cfg a).RateInv cfg win := by
  have hnonneg : 0 ≤ qp.rate := le_trans (Nat.cast_nonneg _) h.min_le
  have hcut : cutRate (cfg.minRate : ℚ) qp.rate qp.dctcp.alpha ≤ qp.rate :=
    cutRate_le h.min_le hnonneg (h.dctcp hmode).nonneg
  rw [RateQp.reduceDctcp]
  split
  · exact
      { h with
        min_le := le_cutRate _ _ _
        le_nic := hcut.trans h.le_nic
        mlx := cfg.not_mlx hmode (by decide)
        dctcp := h.dctcp }
  · exact { h with mlx := cfg.not_mlx hmode (by decide), dctcp := h.dctcp }

theorem RateInv.handleAckDctcp (h : qp.RateInv cfg win) (hk : cfg.Keeps) (hmode : cfg.ccMode = 8)
    (a : RateAck) : (qp.handleAckDctcp cfg a).RateInv cfg win := by
  have hreduce := (h.feedbackDctcp hk hmode a).reduceDctcp hmode a
  rw [RateQp.handleAckDctcp]
  split
  · have hdelta : (0 : ℚ) ≤ cfg.dctcpRai := Nat.cast_nonneg _
    exact
      { hreduce with
        min_le := le_min hreduce.min_le_max (by linarith [hreduce.min_le])
        le_nic := by
          rw [← hreduce.maxRate_eq]
          exact min_le_left _ _
        mlx := cfg.not_mlx hmode (by decide) }
  · exact hreduce

/-! #### HPCC-PINT -/

theorem RateInv.handleAckHpPint (h : qp.RateInv cfg win) (hmode : cfg.ccMode = 10) (a : RateAck) :
    (qp.handleAckHpPint cfg a).RateInv cfg win := by
  rw [RateQp.handleAckHpPint]
  split
  · exact h
  simp only [updateRateHpPint]
  split
  · exact { h with mlx := cfg.not_mlx hmode (by decide) }
  split
  · exact
      { h with
        min_le := le_adjustHp h.min_le_max _ _ _
        le_nic := h.adjustHp_le_nic _ _ _
        mlx := cfg.not_mlx hmode (by decide) }
  · exact
      { h with
        min_le := le_adjustHp h.min_le_max _ _ _
        le_nic := h.adjustHp_le_nic _ _ _
        mlx := cfg.not_mlx hmode (by decide) }

/-! ### Runs -/

theorem RateInv.receiveAck (h : qp.RateInv cfg win) (hk : cfg.Keeps)
    (hle : cfg.rateOnFirstCnp ≤ 1) {a : RateAck} {qp' : RateQp}
    (hstep : qp.receiveAck cfg a = some qp') : qp'.RateInv cfg win := by
  have hcnp : (if a.cnp ∧ cfg.ccMode = 1 then qp.cnpReceivedMlx cfg else qp).RateInv cfg win := by
    split
    · rename_i hone
      exact h.cnpReceivedMlx hk hone.2 hle
    · exact h
  simp only [RateQp.receiveAck] at hstep
  split at hstep
  · rename_i hmode
    exact hcnp.handleAckHp hmode hstep
  split at hstep
  · rename_i hmode
    cases hstep
    exact hcnp.handleAckTimely hk hmode a
  split at hstep
  · rename_i hmode
    cases hstep
    exact hcnp.handleAckDctcp hk hmode a
  split at hstep
  · rename_i hmode
    cases hstep
    exact hcnp.handleAckHpPint hmode a
  · cases hstep
    exact hcnp

theorem RateInv.step (h : qp.RateInv cfg win) (hk : cfg.Keeps) (hmin : cfg.minRate ≤ cfg.nicRate)
    (hle : cfg.rateOnFirstCnp ≤ 1) {e : RateEvent} {qp' : RateQp}
    (hstep : qp.step cfg e = some qp') : qp'.RateInv cfg win := by
  cases e with
  | ack a => exact h.receiveAck hk hle hstep
  | cnp qIndex =>
      cases hstep
      exact h.receiveCnp hmin qIndex
  | updateAlpha =>
      rw [RateQp.step] at hstep
      split at hstep
      · rename_i hevent
        cases hstep
        exact h.updateAlphaMlx hk hevent
      · cases hstep
  | decreaseRate =>
      rw [RateQp.step] at hstep
      split at hstep
      · rename_i hevent
        cases hstep
        exact h.checkRateDecreaseMlx hevent
      · cases hstep
  | rateInc =>
      rw [RateQp.step] at hstep
      split at hstep
      · rename_i hevent
        cases hstep
        exact h.rateIncEventTimerMlx hevent
      · cases hstep

theorem rateInv_of_run (hk : cfg.Keeps) (hmin : cfg.minRate ≤ cfg.nicRate)
    (hle : cfg.rateOnFirstCnp ≤ 1) {baseRtt : Nat} {es : List RateEvent}
    (hrun : Run (RateQp.step cfg) anyEvent (initial cfg win baseRtt) es qp) :
    qp.RateInv cfg win := by
  apply hrun.invariant
  · intro qp e qp' hinv _ hstep
    exact hinv.step hk hmin hle hstep
  · exact rateInv_initial hmin win baseRtt

/-! ### Runs out of the bounds -/

/-- An ACK without telemetry. -/
def plainAck (seq : Nat) (cnp : Bool) (rtt : Nat) : RateAck where
  seq := seq
  sndNxt := seq
  cnp := cnp
  nhop := 0
  hop := fun _ => ⟨0, 0, 0, 0⟩
  rtt := rtt
  power := 0
  rand := 0

variable (win) in
/-- The first CNP takes the rate to its share of the rate of the device, wherever that is. -/
theorem run_firstCut (hmode : cfg.ccMode = 1) (baseRtt : Nat) :
    Run (RateQp.step cfg) anyEvent (initial cfg win baseRtt) [.ack (plainAck 1 true 0)]
      ((initial cfg win baseRtt).cnpReceivedMlx cfg) := by
  have hstep : (initial cfg win baseRtt).step cfg (.ack (plainAck 1 true 0)) =
      some ((initial cfg win baseRtt).cnpReceivedMlx cfg) := by
    simp [RateQp.step, RateQp.receiveAck, plainAck, hmode]
  exact .cons trivial hstep (.nil _)

variable (win) in
/-- With a gain above one the update of `alpha` makes it negative, and the next decrease raises the
rate. -/
theorem run_gainMlx (hmode : cfg.ccMode = 1) (baseRtt : Nat) :
    Run (RateQp.step cfg) anyEvent (initial cfg win baseRtt)
      [.ack (plainAck 1 true 0), .updateAlpha, .decreaseRate]
      ((((initial cfg win baseRtt).cnpReceivedMlx cfg).updateAlphaMlx cfg).checkRateDecreaseMlx
        cfg) := by
  have hstart := run_firstCut win hmode baseRtt
  cases hstart with
  | cons hok hstep hrest =>
      cases hrest
      exact .cons hok hstep (.cons trivial rfl (.cons trivial rfl (.nil _)))

theorem checkRateDecreaseMlx_targetRate (cfg : RateConfig) (h : qp.mlx.targetRate = qp.rate) :
    (qp.checkRateDecreaseMlx cfg).mlx.targetRate = qp.rate := by
  rw [RateQp.checkRateDecreaseMlx]
  split
  · dsimp only
    split
    · rfl
    · exact h
  · exact h

theorem handleAckDctcp_plain (cfg : RateConfig) (hrate : qp.rate = cfg.nicRate)
    (hmax : qp.maxRate = cfg.nicRate) (hca : qp.dctcp.caState = 0) (hcnt : qp.dctcp.ecnCnt = 0)
    {seq : Nat} (hseq : qp.dctcp.lastUpdateSeq < seq) (rtt : Nat) :
    qp.handleAckDctcp cfg (plainAck seq false rtt) =
      qp.updateAlphaDctcp cfg (plainAck seq false rtt) := by
  obtain ⟨rate, maxRate, win, baseRtt, mlx, hp, tmly, dctcp, hpccPint⟩ := qp
  obtain ⟨lastUpdateSeq, caState, highSeq, alpha, ecnCnt, batchSizeOfAlpha⟩ := dctcp
  simp only at hrate hmax hca hcnt hseq
  subst hrate hmax hca hcnt
  by_cases hzero : lastUpdateSeq = 0
  · subst hzero
    simp [RateQp.handleAckDctcp, RateQp.feedbackDctcp, RateQp.updateAlphaDctcp, RateQp.reduceDctcp,
      exitCwr, plainAck, hseq]
  · simp [RateQp.handleAckDctcp, RateQp.feedbackDctcp, RateQp.updateAlphaDctcp, RateQp.reduceDctcp,
      exitCwr, plainAck, hseq, hzero, fracDctcp]

theorem handleAckDctcp_mark (cfg : RateConfig) {q : RateQp} (hca : q.dctcp.caState = 0) {seq : Nat}
    (hseq : seq ≤ q.dctcp.lastUpdateSeq) (rtt : Nat) :
    (q.handleAckDctcp cfg (plainAck seq true rtt)).rate =
        cutRate (cfg.minRate : ℚ) q.rate q.dctcp.alpha ∧
      (q.handleAckDctcp cfg (plainAck seq true rtt)).maxRate = q.maxRate := by
  have hnot : ¬ q.dctcp.lastUpdateSeq < seq := Nat.not_lt.mpr hseq
  simp [RateQp.handleAckDctcp, RateQp.feedbackDctcp, RateQp.reduceDctcp, exitCwr, plainAck, hnot, hca,
    cutRate]

/-- DCTCP with a gain above one: feedback without a mark makes `alpha` negative, and the next mark
raises the rate above that of the device. -/
theorem exists_run_gainDctcp (hmode : cfg.ccMode = 8) (hgain : 1 < cfg.g) (win : UInt32)
    (baseRtt : Nat) :
    ∃ qp', Run (RateQp.step cfg) anyEvent (initial cfg win baseRtt)
      [.ack (plainAck 1 false 0), .ack (plainAck 2 false 0), .ack (plainAck 2 true 0)] qp' ∧
      qp'.maxRate < qp'.rate := by
  have hstep (qp : RateQp) (a : RateAck) :
      qp.step cfg (.ack a) = some (qp.handleAckDctcp cfg a) := by
    simp [RateQp.step, RateQp.receiveAck, hmode]
  let s₁ := (initial cfg win baseRtt).updateAlphaDctcp cfg (plainAck 1 false 0)
  let s₂ := s₁.updateAlphaDctcp cfg (plainAck 2 false 0)
  have hfirst : (initial cfg win baseRtt).handleAckDctcp cfg (plainAck 1 false 0) = s₁ :=
    handleAckDctcp_plain cfg rfl rfl rfl rfl Nat.one_pos 0
  have hsecond : s₁.handleAckDctcp cfg (plainAck 2 false 0) = s₂ :=
    handleAckDctcp_plain cfg rfl rfl rfl rfl Nat.one_lt_two 0
  have hbatch : u32 (1 / cfg.mtu + 1) ≠ 0 := by
    have hle := Nat.div_le_self 1 cfg.mtu
    rw [u32_of_lt (by omega)]
    exact Nat.succ_ne_zero _
  have hfrac : s₁.fracDctcp = 0 := by
    simp [s₁, fracDctcp, RateQp.updateAlphaDctcp, initial, plainAck, hbatch]
  have halpha : s₂.dctcp.alpha = 1 - cfg.g := by
    have hupdate : s₂.dctcp.alpha = (1 - cfg.g) * 1 + cfg.g * s₁.fracDctcp := rfl
    rw [hupdate, hfrac]
    ring
  have hmark := handleAckDctcp_mark (q := s₂) cfg rfl (Nat.le_refl 2) 0
  have hrise : (cfg.nicRate : ℚ) < cutRate (cfg.minRate : ℚ) cfg.nicRate (1 - cfg.g) :=
    lt_cutRate (Nat.cast_pos.mpr cfg.nicRate_pos) (by linarith)
  use s₂.handleAckDctcp cfg (plainAck 2 true 0)
  constructor
  · rw [← hsecond, ← hfirst]
    exact .cons trivial (hstep _ _) (.cons trivial (hstep _ _) (.cons trivial (hstep _ _) (.nil _)))
  · rw [hmark.1, hmark.2, halpha]
    exact hrise

theorem handleAckTimely_maxRate (cfg : RateConfig) (qp : RateQp) (a : RateAck) :
    (qp.handleAckTimely cfg a).maxRate = qp.maxRate := by
  have hstore (qp : RateQp) : (qp.storeRttTimely a).maxRate = qp.maxRate := by
    rw [RateQp.storeRttTimely]
    split
    · rfl
    · rfl
  have hadjust : (qp.adjustTimely cfg a).maxRate = qp.maxRate := by
    simp only [RateQp.adjustTimely]
    split
    · rfl
    · rfl
  rw [RateQp.handleAckTimely, updateRateTimely]
  split
  · split
    · rw [hstore, hadjust]
    · exact hstore qp
  · rfl

/-- TIMELY with a negative `TimelyBeta`: an RTT above both thresholds raises the rate above that of the
device. -/
theorem exists_run_beta (hmode : cfg.ccMode = 7) (hbeta : cfg.tmlyBeta < 0) (win : UInt32)
    (baseRtt : Nat) :
    ∃ qp', Run (RateQp.step cfg) anyEvent (initial cfg win baseRtt)
      [.ack (plainAck 1 false 0), .ack (plainAck 2 false (cfg.tmlyTLow + cfg.tmlyTHigh + 1))] qp' ∧
      qp'.maxRate < qp'.rate := by
  have hstep (qp : RateQp) (a : RateAck) :
      qp.step cfg (.ack a) = some (qp.handleAckTimely cfg a) := by
    simp [RateQp.step, RateQp.receiveAck, hmode]
  let s₁ := (initial cfg win baseRtt).handleAckTimely cfg (plainAck 1 false 0)
  let a₂ := plainAck 2 false (cfg.tmlyTLow + cfg.tmlyTHigh + 1)
  have hfactor (rttDiff : ℚ) : factorTimely cfg a₂ rttDiff =
      some (1 - cfg.tmlyBeta * (1 - (cfg.tmlyTHigh : ℚ) / a₂.rtt)) := by
    simp [factorTimely, a₂, plainAck]
    omega
  have hshare : (cfg.tmlyTHigh : ℚ) / a₂.rtt < 1 := by
    have hlt : cfg.tmlyTHigh < a₂.rtt := by
      simp only [a₂, plainAck]
      omega
    rw [div_lt_one (Nat.cast_pos.mpr (by omega))]
    exact Nat.cast_lt.mpr hlt
  have hadjust (qp : RateQp) : (qp.adjustTimely cfg a₂).rate = max (cfg.minRate : ℚ)
      (qp.tmly.curRate * (1 - cfg.tmlyBeta * (1 - (cfg.tmlyTHigh : ℚ) / a₂.rtt))) := by
    simp [RateQp.adjustTimely, hfactor]
  have hsecond : (s₁.handleAckTimely cfg a₂).rate = (s₁.adjustTimely cfg a₂).rate := by
    have hseq : s₁.tmly.lastUpdateSeq = 1 := rfl
    rw [RateQp.handleAckTimely, if_pos (by rw [hseq]; exact Nat.one_lt_two), updateRateTimely,
      if_pos (by rw [hseq]; exact Nat.one_ne_zero), RateQp.storeRttTimely]
    split
    · rfl
    · rfl
  have hcur : s₁.tmly.curRate = cfg.nicRate := by
    have heq : s₁.tmly.curRate = if cfg.ccMode = 7 then (cfg.nicRate : ℚ) else 0 := rfl
    rw [heq, if_pos hmode]
  use s₁.handleAckTimely cfg a₂
  constructor
  · exact .cons trivial (hstep _ _) (.cons trivial (hstep _ _) (.nil _))
  · have hmax : s₁.maxRate = cfg.nicRate := handleAckTimely_maxRate cfg _ _
    have hnic : (0 : ℚ) < cfg.nicRate := Nat.cast_pos.mpr cfg.nicRate_pos
    have hrise := mul_pos hnic (mul_pos (neg_pos.mpr hbeta) (sub_pos.mpr hshare))
    rw [handleAckTimely_maxRate, hmax, hsecond, hadjust, hcur]
    apply lt_max_of_lt_right
    linarith

/-- A queue pair that stays in the bounds has attributes that keep them. -/
theorem keeps_of_bounded (hpos : 0 < cfg.rateOnFirstCnp) (win : UInt32) (baseRtt : Nat)
    (hall : ∀ es qp, Run (RateQp.step cfg) anyEvent (initial cfg win baseRtt) es qp →
      qp.Bounded cfg) : cfg.Keeps where
  firstCut := by
    intro hmode
    exact (hall _ _ (run_firstCut win hmode baseRtt)).min_le
  gain := by
    intro hmode
    by_contra hgain
    rw [not_le] at hgain
    rcases hmode with hmode | hmode
    · let s₂ := ((initial cfg win baseRtt).cnpReceivedMlx cfg).updateAlphaMlx cfg
      have hle := (hall _ _ (run_gainMlx win hmode baseRtt)).le_target hmode
      have hrate : (s₂.checkRateDecreaseMlx cfg).rate =
          cutRate (cfg.minRate : ℚ) s₂.rate s₂.mlx.alpha := rfl
      have htarget : (s₂.checkRateDecreaseMlx cfg).mlx.targetRate = s₂.rate :=
        checkRateDecreaseMlx_targetRate cfg rfl
      have halpha : s₂.mlx.alpha = (1 - cfg.g) * 1 := rfl
      have hcut : 0 < s₂.rate := mul_pos hpos (Nat.cast_pos.mpr cfg.nicRate_pos)
      rw [hrate, htarget, halpha] at hle
      exact absurd hle (not_le.mpr (lt_cutRate hcut (by linarith)))
    · obtain ⟨qp', hrun, hlt⟩ := exists_run_gainDctcp hmode hgain win baseRtt
      exact absurd (hall _ _ hrun).le_max (not_le.mpr hlt)
  beta := by
    intro hmode
    by_contra hbeta
    rw [not_le] at hbeta
    obtain ⟨qp', hrun, hlt⟩ := exists_run_beta hmode hbeta win baseRtt
    exact absurd (hall _ _ hrun).le_max (not_le.mpr hlt)

/-- Every run stays in the bounds exactly where the share of the first CNP is not below `m_minRate`, no
gain is above one and `TimelyBeta` is not negative, and where there is a window. -/
theorem bounded_iff (cfg : RateConfig) (hmin : cfg.minRate ≤ cfg.nicRate)
    (hpos : 0 < cfg.rateOnFirstCnp) (hle : cfg.rateOnFirstCnp ≤ 1) (win : UInt32) (baseRtt : Nat) :
    (∀ es qp, Run (RateQp.step cfg) anyEvent (initial cfg win baseRtt) es qp → qp.Bounded cfg) ↔
      cfg.Keeps ∧ win ≠ 0 := by
  constructor
  · intro hall
    constructor
    · exact keeps_of_bounded hpos win baseRtt hall
    · intro hzero
      let nic : NicQp :=
        { messages := []
          sndNxt := 0
          sndUna := 0
          mscclFlowId := 0
          autoClose := false
          closed := false
          pg := 0
          win := 0
          rate := 0
          maxRate := 0
          lastPktSize := 0
          nextAvail := 0 }
      have hwin := (hall [] _ (.nil _)).win_pos nic
      rw [getWin_zero hzero] at hwin
      exact absurd hwin (by decide)
  · intro hk es qp hrun
    exact (rateInv_of_run hk.1 hmin hle hrun).bounded hk.2

end

/-- DCQCN with the defaults of `RdmaHw` on a device of 1 Gb/s, but a hundredth of the rate on the first
CNP. -/
def firstCutConfig : RateConfig where
  ccMode := 1
  nicRate := 10 ^ 9
  nicRate_pos := by decide
  minRate := 10 ^ 8
  rai := 5 * 10 ^ 6
  rhai := 5 * 10 ^ 7
  dctcpRai := 10 ^ 9
  g := 1 / 16
  rateOnFirstCnp := 1 / 100
  ecnClampTgtRate := false
  rpgThreshold := 5
  fastReact := true
  miThresh := 5
  targetUtil := 19 / 20
  multipleRate := true
  sampleFeedback := false
  tmlyAlpha := 7 / 8
  tmlyBeta := 4 / 5
  tmlyTLow := 50000
  tmlyTHigh := 500000
  tmlyMinRtt := 20000
  mtu := 1000
  pintSmplThresh := 65536
  multi := 1
  logBase := 21 / 20

/-- The defaults, which leave the rate as it is on the first CNP, keep the bounds in every run. -/
theorem bounded_of_default :
    RateConfig.Keeps { firstCutConfig with rateOnFirstCnp := 1 } ∧
    ∀ es qp, Run (RateQp.step { firstCutConfig with rateOnFirstCnp := 1 }) anyEvent
      (initial { firstCutConfig with rateOnFirstCnp := 1 } 4000 8000) es qp →
        qp.Bounded { firstCutConfig with rateOnFirstCnp := 1 } := by
  have hkeeps : RateConfig.Keeps { firstCutConfig with rateOnFirstCnp := 1 } := by
    constructor
    · intro _
      norm_num [firstCutConfig]
    · intro _
      norm_num [firstCutConfig]
    · intro hmode
      cases hmode
  constructor
  · exact hkeeps
  · apply (bounded_iff { firstCutConfig with rateOnFirstCnp := 1 } (by decide) one_pos (le_refl 1)
      4000 8000).mpr
    exact ⟨hkeeps, by decide⟩

/-- The first CNP alone takes the rate to 10 Mb/s, below the minimum of 100 Mb/s. -/
theorem exists_rate_below_minRate :
    ∃ qp, Run (RateQp.step firstCutConfig) anyEvent (initial firstCutConfig 4000 8000)
      [.ack (plainAck 1 true 0)] qp ∧
      qp.rate < (firstCutConfig.minRate : ℚ) ∧ ¬ qp.Bounded firstCutConfig := by
  have hmode : firstCutConfig.ccMode = 1 := rfl
  have hrun := run_firstCut 4000 hmode 8000
  have hlt : ((initial firstCutConfig 4000 8000).cnpReceivedMlx firstCutConfig).rate <
      (firstCutConfig.minRate : ℚ) := by
    simp [RateQp.cnpReceivedMlx, initial, firstCutConfig]
    norm_num
  exact ⟨_, hrun, hlt, fun hbound => absurd hbound.min_le (not_le.mpr hlt)⟩

end RateQp

end CollectiveSim.Rdma
