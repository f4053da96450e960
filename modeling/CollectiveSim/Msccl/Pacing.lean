import CollectiveSim.Framework.Run
import CollectiveSim.Msccl.PendingSends

/-!
# Pacing of fragments

All channels of a GPU queue their fragments per device. The first one of a burst is sent at once, and
every other one a transmission time behind the one before it. A burst ends with its last fragment being
sent, not with its transmission.
-/

namespace CollectiveSim.Msccl

open Framework

/-- A packet with its socket and its size behind `AddHeader`. -/
structure PendingFragment where
  packet : Nat
  sock : Nat
  wireSize : Nat
  deriving DecidableEq

/-- What the application keeps of its devices, and the scheduled calls of `SendNextFragment`. -/
structure Pacer (D : Type*) where
  now : Nat
  pendingFragments : D → List PendingFragment
  sendInFlight : D → Bool
  scheduled : List (Nat × D)
  /-- the fragments of each device in the order of the calls -/
  queued : D → List PendingFragment
  /-- the fragments that were sent, with their times -/
  sent : D → List (Nat × PendingFragment)

namespace Pacer

variable {D : Type*} [DecidableEq D]

/-- A channel calls, or a scheduled call runs. -/
inductive Event (D : Type*)
  | queueFragmentsForDevice (time : Nat) (dev : D) (frags : List PendingFragment)
  | sendNextFragment (time : Nat) (dev : D)

def initial : Pacer D where
  now := 0
  pendingFragments _ := []
  sendInFlight _ := false
  scheduled := []
  queued _ := []
  sent _ := []

section

variable (getTxTime : D → Nat → Nat)

/-- The time that a fragment takes with its link-layer header. -/
def txTime (dev : D) (frag : PendingFragment) : Nat :=
  getTxTime dev (frag.wireSize + l2OverheadBytes)

/-- `SendNextFragment`; a fragment that the socket does not take ends the program. -/
def sendNextFragment (dev : D) (s : Pacer D) : Pacer D :=
  match s.pendingFragments dev with
  | [] => { s with sendInFlight := Function.update s.sendInFlight dev false }
  | frag :: rest =>
      let s := { s with
        pendingFragments := Function.update s.pendingFragments dev rest
        sent := Function.update s.sent dev (s.sent dev ++ [(s.now, frag)]) }
      if rest.isEmpty then { s with sendInFlight := Function.update s.sendInFlight dev false }
      else { s with scheduled := s.scheduled ++ [(s.now + txTime getTxTime dev frag, dev)] }

/-- `QueueFragmentsForDevice`. -/
def queueFragmentsForDevice (dev : D) (frags : List PendingFragment) (s : Pacer D) : Pacer D :=
  let s := { s with
    pendingFragments :=
      Function.update s.pendingFragments dev (s.pendingFragments dev ++ frags)
    queued := Function.update s.queued dev (s.queued dev ++ frags) }
  if s.sendInFlight dev then s
  else { s with sendInFlight := Function.update s.sendInFlight dev true }.sendNextFragment getTxTime dev

/-- An event happens at its time; no scheduled call is passed over. -/
def step (s : Pacer D) : Event D → Option (Pacer D)
  | .queueFragmentsForDevice time dev frags =>
      if s.now ≤ time ∧ ∀ call ∈ s.scheduled, time ≤ call.1 then
        some ({ s with now := time }.queueFragmentsForDevice getTxTime dev frags)
      else none
  | .sendNextFragment time dev =>
      if (time, dev) ∈ s.scheduled ∧ ∀ call ∈ s.scheduled, time ≤ call.1 then
        some ({ s with
          now := time
          scheduled := s.scheduled.erase (time, dev) }.sendNextFragment getTxTime dev)
      else none

/-- The fragments were sent in the order of the calls, each once, and those that were not are next; while
there are some, a call is scheduled for them. -/
def Fifo (s : Pacer D) (dev : D) : Prop :=
  (s.sent dev).map Prod.snd ++ s.pendingFragments dev = s.queued dev ∧
    (s.pendingFragments dev ≠ [] → ∃ time, (time, dev) ∈ s.scheduled)

/-- Each fragment was sent at least the transmission time of the one before it later than that. -/
def Spaced (s : Pacer D) (dev : D) : Prop :=
  (s.sent dev).IsChain fun before behind => before.1 + txTime getTxTime dev before.2 ≤ behind.1

/-- A new burst does not begin before the last fragment that was sent on the device is transmitted. -/
def Rested (s : Pacer D) : Event D → Prop
  | .queueFragmentsForDevice time dev frags =>
      s.sendInFlight dev = false → frags ≠ [] →
        ∀ last ∈ (s.sent dev).getLast?, last.1 + txTime getTxTime dev last.2 ≤ time
  | .sendNextFragment _ _ => True

/-- The call that is scheduled for the device while its fragments wait, with the last fragment sent. -/
inductive Draining (s : Pacer D) (dev : D) : Prop
  | idle (hflight : s.sendInFlight dev = false) (hpending : s.pendingFragments dev = [])
      (hscheduled : s.scheduled.filter (fun call => call.2 = dev) = [])
  | busy {time : Nat} {frag : PendingFragment} (hflight : s.sendInFlight dev = true)
      (hpending : s.pendingFragments dev ≠ []) (hlast : (s.sent dev).getLast? = some (time, frag))
      (hscheduled : s.scheduled.filter (fun call => call.2 = dev) =
        [(time + txTime getTxTime dev frag, dev)])

/-- What every run keeps. -/
structure Kept (s : Pacer D) : Prop where
  order : ∀ dev, (s.sent dev).map Prod.snd ++ s.pendingFragments dev = s.queued dev
  draining : ∀ dev, Draining getTxTime s dev

end

variable {getTxTime : D → Nat → Nat} {s t : Pacer D} {dev : D}

theorem Kept.fifo (h : Kept getTxTime s) (dev : D) : Fifo s dev := by
  refine ⟨h.order dev, ?_⟩
  intro hne
  cases h.draining dev with
  | idle hflight hpending hscheduled => exact absurd hpending hne
  | @busy time frag hflight hpending hlast hscheduled =>
      have hmem : (time + txTime getTxTime dev frag, dev) ∈
          s.scheduled.filter (fun call => call.2 = dev) := by
        rw [hscheduled]
        exact List.mem_singleton_self _
      exact ⟨_, List.mem_of_mem_filter hmem⟩

theorem kept_initial : Kept getTxTime (initial : Pacer D) where
  order _ := rfl
  draining _ := .idle rfl rfl rfl

theorem Draining.congr (h : Draining getTxTime s dev)
    (hflight : t.sendInFlight dev = s.sendInFlight dev)
    (hpending : t.pendingFragments dev = s.pendingFragments dev) (hsent : t.sent dev = s.sent dev)
    (hscheduled : t.scheduled.filter (fun call => call.2 = dev) =
      s.scheduled.filter fun call => call.2 = dev) : Draining getTxTime t dev := by
  cases h with
  | idle hf hp hs => exact .idle (hflight.trans hf) (hpending.trans hp) (hscheduled.trans hs)
  | busy hf hp hl hs =>
      exact .busy (hflight.trans hf) (by rwa [hpending]) (by rwa [hsent]) (hscheduled.trans hs)

/-! ### Sending one fragment -/

theorem sendNextFragment_nil (h : s.pendingFragments dev = []) :
    s.sendNextFragment getTxTime dev =
      { s with sendInFlight := Function.update s.sendInFlight dev false } := by
  rw [sendNextFragment, h]

theorem sendNextFragment_last {frag : PendingFragment} (h : s.pendingFragments dev = [frag]) :
    s.sendNextFragment getTxTime dev = { s with
      pendingFragments := Function.update s.pendingFragments dev []
      sendInFlight := Function.update s.sendInFlight dev false
      sent := Function.update s.sent dev (s.sent dev ++ [(s.now, frag)]) } := by
  rw [sendNextFragment, h]
  rfl

theorem sendNextFragment_more {frag next : PendingFragment} {rest : List PendingFragment}
    (h : s.pendingFragments dev = frag :: next :: rest) :
    s.sendNextFragment getTxTime dev = { s with
      pendingFragments := Function.update s.pendingFragments dev (next :: rest)
      scheduled := s.scheduled ++ [(s.now + txTime getTxTime dev frag, dev)]
      sent := Function.update s.sent dev (s.sent dev ++ [(s.now, frag)]) } := by
  rw [sendNextFragment, h]
  rfl

theorem kept_sendNextFragment
    (horder : ∀ dev, (s.sent dev).map Prod.snd ++ s.pendingFragments dev = s.queued dev)
    (hother : ∀ dev', dev' ≠ dev → Draining getTxTime s dev') (hflight : s.sendInFlight dev = true)
    (hnone : s.scheduled.filter (fun call => call.2 = dev) = []) :
    Kept getTxTime (s.sendNextFragment getTxTime dev) := by
  have hmove {frag : PendingFragment} {rest : List PendingFragment}
      (h : s.pendingFragments dev = frag :: rest) (dev' : D) :
      ((Function.update s.sent dev (s.sent dev ++ [(s.now, frag)])) dev').map Prod.snd ++
        (Function.update s.pendingFragments dev rest) dev' = s.queued dev' := by
    rw [← horder dev']
    by_cases hdev : dev' = dev
    · subst hdev
      simp [h]
    · simp [hdev]
  cases hpending : s.pendingFragments dev with
  | nil =>
      rw [sendNextFragment_nil hpending]
      refine ⟨horder, fun dev' => ?_⟩
      by_cases hdev : dev' = dev
      · subst hdev
        exact .idle (Function.update_self _ _ _) hpending hnone
      · exact (hother dev' hdev).congr (Function.update_of_ne hdev _ _) rfl rfl rfl
  | cons frag rest =>
      cases rest with
      | nil =>
          rw [sendNextFragment_last hpending]
          refine ⟨hmove hpending, fun dev' => ?_⟩
          by_cases hdev : dev' = dev
          · subst hdev
            exact .idle (Function.update_self _ _ _) (Function.update_self _ _ _) hnone
          · exact (hother dev' hdev).congr (Function.update_of_ne hdev _ _)
              (Function.update_of_ne hdev _ _) (Function.update_of_ne hdev _ _) rfl
      | cons next rest =>
          rw [sendNextFragment_more hpending]
          refine ⟨hmove hpending, fun dev' => ?_⟩
          by_cases hdev : dev' = dev
          · subst hdev
            refine @Draining.busy _ _ _ _ _ s.now frag hflight ?_ ?_ ?_
            · simp
            · simp
            · simp [hnone]
          · refine (hother dev' hdev).congr rfl (Function.update_of_ne hdev _ _)
              (Function.update_of_ne hdev _ _) ?_
            simp [Ne.symm hdev]

theorem spaced_sendNextFragment (dev' : D) :
    Spaced getTxTime (s.sendNextFragment getTxTime dev) dev' ↔ Spaced getTxTime s dev' ∧
      (dev' = dev → s.pendingFragments dev ≠ [] →
        ∀ last ∈ (s.sent dev).getLast?, last.1 + txTime getTxTime dev last.2 ≤ s.now) := by
  have hsent {frag : PendingFragment} :
      ((Function.update s.sent dev (s.sent dev ++ [(s.now, frag)])) dev').IsChain
          (fun before behind => before.1 + txTime getTxTime dev' before.2 ≤ behind.1) ↔
        Spaced getTxTime s dev' ∧ (dev' = dev →
          ∀ last ∈ (s.sent dev).getLast?, last.1 + txTime getTxTime dev last.2 ≤ s.now) := by
    by_cases hdev : dev' = dev
    · subst hdev
      rw [Function.update_self, List.isChain_append, Spaced]
      simp
    · rw [Function.update_of_ne hdev, Spaced]
      simp [hdev]
  cases hpending : s.pendingFragments dev with
  | nil =>
      rw [sendNextFragment_nil hpending]
      simp [Spaced]
  | cons frag rest =>
      cases rest with
      | nil =>
          rw [sendNextFragment_last hpending, Spaced, hsent]
          simp
      | cons next rest =>
          rw [sendNextFragment_more hpending, Spaced, hsent]
          simp

/-! ### Runs -/

/-- One event keeps the bookkeeping, and the distances exactly if it meets the condition. -/
theorem step_spaced_iff {e : Event D} (h : Kept getTxTime s) (hstep : step getTxTime s e = some t) :
    Kept getTxTime t ∧
      ((∀ dev, Spaced getTxTime t dev) ↔ (∀ dev, Spaced getTxTime s dev) ∧ Rested getTxTime s e) := by
  cases e with
  | sendNextFragment time dev =>
      rw [step, Option.ite_none_right_eq_some, Option.some_inj] at hstep
      obtain ⟨⟨hmem, -⟩, rfl⟩ := hstep
      have hmem' : (time, dev) ∈ s.scheduled.filter (fun call => call.2 = dev) := by
        simp [hmem]
      cases h.draining dev with
      | idle hflight hpending hscheduled =>
          rw [hscheduled] at hmem'
          cases hmem'
      | @busy time' frag hflight hpending hlast hscheduled =>
          rw [hscheduled, List.mem_singleton, Prod.mk.injEq] at hmem'
          obtain ⟨rfl, -⟩ := hmem'
          constructor
          · apply kept_sendNextFragment
            · exact h.order
            · intro dev' hdev
              refine (h.draining dev').congr rfl rfl rfl ?_
              rw [← List.erase_filter, List.erase_of_not_mem]
              simp [Ne.symm hdev]
            · exact hflight
            · rw [← List.erase_filter, hscheduled]
              simp
          · simp only [spaced_sendNextFragment, Rested, and_true]
            refine forall_congr' fun dev' => and_iff_left fun _ _ last hmem => ?_
            rw [hlast, Option.mem_some] at hmem
            rw [← hmem]
  | queueFragmentsForDevice time dev frags =>
      rw [step, Option.ite_none_right_eq_some, Option.some_inj] at hstep
      obtain ⟨-, rfl⟩ := hstep
      have horder (dev' : D) : (s.sent dev').map Prod.snd ++
          (Function.update s.pendingFragments dev (s.pendingFragments dev ++ frags)) dev' =
            (Function.update s.queued dev (s.queued dev ++ frags)) dev' := by
        by_cases hdev : dev' = dev
        · subst hdev
          rw [Function.update_self, Function.update_self, ← List.append_assoc, h.order]
        · rw [Function.update_of_ne hdev, Function.update_of_ne hdev, h.order]
      rw [queueFragmentsForDevice]
      cases h.draining dev with
      | @busy time' frag hflight hpending hlast hscheduled =>
          simp only [hflight, if_true]
          constructor
          · refine ⟨horder, fun dev' => ?_⟩
            by_cases hdev : dev' = dev
            · subst hdev
              exact @Draining.busy _ _ _ _ _ time' frag hflight (by simp [hpending]) hlast hscheduled
            · exact (h.draining dev').congr rfl (Function.update_of_ne hdev _ _) rfl rfl
          · refine (and_iff_left fun hidle => ?_).symm
            rw [hflight] at hidle
            cases hidle
      | idle hflight hpending hscheduled =>
          simp only [hflight, Bool.false_eq_true, if_false]
          constructor
          · apply kept_sendNextFragment
            · exact horder
            · intro dev' hdev
              exact (h.draining dev').congr (Function.update_of_ne hdev _ _)
                (Function.update_of_ne hdev _ _) rfl rfl
            · exact Function.update_self _ _ _
            · exact hscheduled
          · simp only [spaced_sendNextFragment, Rested, Function.update_self, hpending, List.nil_append]
            constructor
            · intro hall
              exact ⟨fun dev' => (hall dev').1, fun _ hne => (hall dev).2 rfl hne⟩
            · intro hall dev'
              exact ⟨hall.1 dev', fun _ hne => hall.2 hflight hne⟩

theorem kept_run {events : List (Event D)} (hrun : Run (step getTxTime) anyEvent initial events s) :
    Kept getTxTime s :=
  hrun.invariant (fun _ _ _ hkept _ hstep => (step_spaced_iff hkept hstep).1) kept_initial

/-- Fragments leave in order and once in every run; they are a transmission time apart in exactly the
runs where no burst begins while the last fragment of the one before it is in transmission. -/
theorem paced_iff {events : List (Event D)} (hrun : Run (step getTxTime) anyEvent initial events s) :
    (∀ dev, s.Fifo dev) ∧
      ((∀ bs cs u, events = bs ++ cs → Run (step getTxTime) anyEvent initial bs u →
          ∀ dev, u.Fifo dev ∧ Spaced getTxTime u dev) ↔
        Run (step getTxTime) (Rested getTxTime) initial events s) := by
  constructor
  · exact (kept_run hrun).fifo
  · apply Run.guarded_iff (I := fun s => Kept getTxTime s ∧ ∀ dev, Spaced getTxTime s dev)
      (P := fun s => ∀ dev, s.Fifo dev ∧ Spaced getTxTime s dev) _ _ _ hrun
    · exact ⟨kept_initial, fun _ => List.isChain_nil⟩
    · exact fun s hs dev => ⟨hs.1.fifo dev, hs.2 dev⟩
    · intro s e t hs hok hstep
      obtain ⟨hkept, hiff⟩ := step_spaced_iff hs.1 hstep
      exact ⟨hkept, hiff.mpr ⟨hs.2, hok⟩⟩
    · intro s e t hs hnot hstep hall
      exact hnot ((step_spaced_iff hs.1 hstep).2.mp fun dev => (hall dev).2).2

/-! ### Two bursts -/

instance (s : Pacer D) (e : Event D) : Decidable (Rested getTxTime s e) :=
  match e with
  | .queueFragmentsForDevice _ _ _ => inferInstanceAs (Decidable (_ → _ → _))
  | .sendNextFragment _ _ => isTrue trivial

instance (s : Pacer D) (dev : D) : Decidable (Spaced getTxTime s dev) :=
  inferInstanceAs (Decidable (List.IsChain _ _))

/-- A device that sends a byte in a nanosecond. -/
def bytePerTick : Nat → Nat → Nat := fun _ bytes => bytes

/-- Two fragments at once, and a third one when both are transmitted. -/
def lateBurst : List (Event Nat) :=
  [.queueFragmentsForDevice 0 0 [⟨0, 0, 86⟩, ⟨1, 0, 86⟩], .sendNextFragment 100 0,
    .queueFragmentsForDevice 200 0 [⟨2, 1, 86⟩]]

theorem lateBurst_paced : ∃ s, Run (step bytePerTick) anyEvent initial lateBurst s ∧
    ∀ bs cs u, lateBurst = bs ++ cs → Run (step bytePerTick) anyEvent initial bs u →
      ∀ dev, u.Fifo dev ∧ Spaced bytePerTick u dev := by
  obtain ⟨s, hrun, -⟩ := exists_run (step bytePerTick) (Rested bytePerTick) (fun _ => True) initial
    lateBurst (by decide +kernel)
  exact ⟨s, hrun.any, (paced_iff hrun.any).2.mpr hrun⟩

/-- Two channels send a fragment each at the same time. -/
def twoChannels : List (Event Nat) :=
  [.queueFragmentsForDevice 0 0 [⟨0, 0, 86⟩], .queueFragmentsForDevice 0 0 [⟨1, 1, 86⟩]]

theorem twoChannels_not_spaced : ∃ s, Run (step bytePerTick) anyEvent initial twoChannels s ∧
    ¬ Spaced bytePerTick s 0 :=
  exists_run (step bytePerTick) anyEvent (fun s => ¬ Spaced bytePerTick s 0) initial twoChannels
    (by decide +kernel)

end Pacer

end CollectiveSim.Msccl
