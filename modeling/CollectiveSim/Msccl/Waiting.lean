import CollectiveSim.Msccl.Change

/-!
# Nothing is forgotten

A running send is in the queue of its connection and a running receive among the pending ones, and
every fragment on the wire is part of one message. So while something is under way, something can
happen.
-/

namespace CollectiveSim.Msccl

open Framework Interpreter

namespace Interpreter

variable {algo : MscclAlgorithm} {s s' : Interpreter} {bid sid : Nat}

/-- What holds of the interpreter of a GPU in every run. -/
structure Alive (algo : MscclAlgorithm) (s : Interpreter) : Prop where
  reached : Reached algo s
  unrepeated : s.Unrepeated
  attended : Attended algo s
  engaged : Engaged s

theorem Alive.initial (h : interpretAlgo algo = some s) : Alive algo s where
  reached := reached_initial h
  unrepeated := by
    obtain ⟨-, rfl⟩ := (interpretAlgo_eq_some algo).mp h
    exact fun z => List.nodup_nil
  attended := .initial h
  engaged := .initial h

theorem Alive.step (h : Alive algo s) (hbound : Bounded algo) (himp : AllImplemented algo)
    {a : Action} (hstep : Step algo s a s') : Alive algo s' where
  reached := ⟨h.reached.accounted.step hstep, h.reached.inRange.step hstep,
    h.reached.flagged.step hbound h.reached.accounted h.reached.inRange hstep⟩
  unrepeated := h.unrepeated.step hstep
  attended := h.attended.step hstep
  engaged := h.engaged.step himp h.reached.inRange hstep

theorem Step.running_start (himp : AllImplemented algo) (h : Reached algo s)
    (hstep : Step algo s (.fire (.runStep bid sid)) s') :
    s'.running = s.running ++ [(bid, sid)] := by
  cases hstep with
  | start hmem htran htype => rfl
  | ignore hmem htran htype =>
      have himpl := himp bid (h.inRange.pending _ hmem) _ (List.mem_of_getElem? htran)
      rw [htype] at himpl
      cases himpl

theorem Step.running_finish (h : Accounted algo s) (hstep : Step algo s (.finish bid sid) s')
    {b i : Nat} (hrun : (b, i) ∈ s'.running) : (b, i) ∈ s.running ∧ b ≠ bid := by
  cases hstep with
  | finish hmem =>
      have hrun' : (b, i) ∈ s.running.erase (bid, sid) := hrun
      have hold := List.mem_of_mem_erase hrun'
      refine ⟨hold, ?_⟩
      rintro rfl
      have hcur := (h.of_running hmem).2
      have hother := (h.of_running hold).2
      have hone := h.inflight_le b sid
      obtain rfl : i = sid := by omega
      have hcount := List.count_pos_iff.mpr hrun'
      rw [List.count_erase_self] at hcount
      rw [inflight] at hone
      omega

end Interpreter

theorem Paired.block_eq {algos : Nat → Option MscclAlgorithm} {counts : ConnId → List Nat}
    (h : Paired algos counts) {side : Side} {c : ConnId} {a b : Op} (ha : a.on algos side c = true)
    (hb : b.on algos side c = true) : a.gpu = b.gpu ∧ a.bid = b.bid := by
  obtain ⟨tran, htran, slot, hslot, rfl⟩ := Op.on_eq_true.mp ha
  obtain ⟨tran', htran', slot', hslot', hconn⟩ := Op.on_eq_true.mp hb
  obtain ⟨algo, halgo, -, -, -⟩ := Op.transfer_eq_some.mp htran
  obtain ⟨algo', halgo', -, -, -⟩ := Op.transfer_eq_some.mp htran'
  have huses' := b.uses halgo' htran' hslot'
  rw [hconn] at huses'
  exact h.unique side _ _ _ _ _ _ _ (a.uses halgo htran hslot) huses'

namespace Collective

variable {cfg : AppConfig} {algos : Nat → Option MscclAlgorithm} {counts : ConnId → List Nat}
  {s s' : Collective}

/-- What every step of an interpreter keeps, every move keeps for the interpreters of all GPUs. -/
theorem Change.lift {P : MscclAlgorithm → Interpreter → Prop}
    (hP : ∀ gpu algo, algos gpu = some algo → ∀ i a j, P algo i → Step algo i a j → P algo j)
    (h : Change cfg algos s s') (hs : ∀ gpu algo, algos gpu = some algo → P algo (s.interp gpu))
    (gpu : Nat) (algo : MscclAlgorithm) (halgo : algos gpu = some algo) : P algo (s'.interp gpu) := by
  have hupdate {gpu' : Nat} {algo' : MscclAlgorithm} {i : Interpreter}
      (halgo' : algos gpu' = some algo') (hi : P algo' i) :
      P algo (Function.update s.interp gpu' i gpu) := by
    by_cases hgpu : gpu = gpu'
    · subst hgpu
      obtain rfl := Option.some_inj.mp (halgo.symm.trans halgo')
      rwa [Function.update_self]
    · rw [Function.update_of_ne hgpu]
      exact hs gpu algo halgo
  cases h with
  | control halgo' hrun hi => exact hupdate halgo' (hP _ _ halgo' _ _ _ (hs _ _ halgo') hi)
  | send halgo' htran htype hon hqueue hi =>
      exact hupdate halgo' (hP _ _ halgo' _ _ _ (hs _ _ halgo') hi)
  | copy halgo' htran htype hi hj =>
      exact hupdate halgo' (hP _ _ halgo' _ _ _ (hP _ _ halgo' _ _ _ (hs _ _ halgo') hi) hj)
  | wait halgo' htran htype hon hpeer hi =>
      exact hupdate halgo' (hP _ _ halgo' _ _ _ (hs _ _ halgo') hi)
  | claim halgo' htran htype hon hpeer hi hj =>
      exact hupdate halgo' (hP _ _ halgo' _ _ _ (hP _ _ halgo' _ _ _ (hs _ _ halgo') hi) hj)
  | emit htran hon hruns hqueue hsource hpos hle hlen => exact hs gpu algo halgo
  | sent halgo' htran hon hqueue hall hi =>
      exact hupdate halgo' (hP _ _ halgo' _ _ _ (hs _ _ halgo') hi)
  | store hwire hpeer => exact hs gpu algo halgo
  | fill hwire hpeer => exact hs gpu algo halgo
  | land halgo' htran htype hon hwire hi =>
      exact hupdate halgo' (hP _ _ halgo' _ _ _ (hs _ _ halgo') hi)

/-- The transfer is in the queue of its connection, or among the pending receives. -/
def Awaits (algos : Nat → Option MscclAlgorithm) (s : Collective) (v : Op) : Prop :=
  (∃ c, v.on algos .sending c = true ∧ (s.sending c).queue ≠ []) ∨
  (∃ c, v.on algos .receiving c = true ∧ (s.receiving c).pendingRecvQueue ≠ [])

theorem Awaits.mono {v : Op} (h : Awaits algos s v)
    (hqueue : ∀ c, v.on algos .sending c = true → (s.sending c).queue ≠ [] →
      (s'.sending c).queue ≠ [])
    (hpending : ∀ c, v.on algos .receiving c = true → (s.receiving c).pendingRecvQueue ≠ [] →
      (s'.receiving c).pendingRecvQueue ≠ []) : Awaits algos s' v := by
  rcases h with ⟨c, hon, hne⟩ | ⟨c, hon, hne⟩
  · exact Or.inl ⟨c, hon, hqueue c hon hne⟩
  · exact Or.inr ⟨c, hon, hpending c hon hne⟩

/-- A running send is queued and a running receive pending. -/
def Waiting (algos : Nat → Option MscclAlgorithm) (s : Collective) : Prop :=
  ∀ v : Op, (v.transfer algos).isSome → s.Runs v → Awaits algos s v

theorem update_queue_ne {f : ConnId → Connection} {c c' : ConnId} {conn : Connection}
    (hconn : c' = c → conn.queue ≠ []) (h : (f c').queue ≠ []) :
    (Function.update f c conn c').queue ≠ [] := by
  by_cases hc : c' = c
  · subst hc
    rw [Function.update_self]
    exact hconn rfl
  · rwa [Function.update_of_ne hc]

theorem update_pending_ne {f : ConnId → PeerRecv} {c c' : ConnId} {peer : PeerRecv}
    (hpeer : c' = c → peer.pendingRecvQueue ≠ []) (h : (f c').pendingRecvQueue ≠ []) :
    (Function.update f c peer c').pendingRecvQueue ≠ [] := by
  by_cases hc : c' = c
  · subst hc
    rw [Function.update_self]
    exact hpeer rfl
  · rwa [Function.update_of_ne hc]

theorem runs_update {gpu : Nat} {i : Interpreter} {v : Op}
    (hinterp : s'.interp = Function.update s.interp gpu i) (h : s'.Runs v) :
    (v.gpu = gpu ∧ (v.bid, v.sid) ∈ i.running) ∨ (v.gpu ≠ gpu ∧ s.Runs v) := by
  rw [Runs, hinterp] at h
  by_cases hgpu : v.gpu = gpu
  · rw [hgpu, Function.update_self] at h
    exact Or.inl ⟨hgpu, h⟩
  · rw [Function.update_of_ne hgpu] at h
    exact Or.inr ⟨hgpu, h⟩

section

variable {u v : Op} {algo : MscclAlgorithm} {i j : Interpreter}

theorem runs_of_start (himp : AllImplemented algo) (hreached : Reached algo (s.interp u.gpu))
    (hinterp : s'.interp = Function.update s.interp u.gpu i)
    (hi : Step algo (s.interp u.gpu) (.fire (.runStep u.bid u.sid)) i) (h : s'.Runs v) :
    v = u ∨ s.Runs v := by
  rcases runs_update hinterp h with ⟨hgpu, hmem⟩ | ⟨-, hold⟩
  · rw [hi.running_start himp hreached, List.mem_append, List.mem_singleton] at hmem
    rcases hmem with hold | heq
    · right
      rw [Runs, hgpu]
      exact hold
    · left
      obtain ⟨gpu, bid, sid⟩ := v
      cases hgpu
      cases heq
      rfl
  · exact Or.inr hold

theorem idle_after_finish (hreached : Reached algo (s.interp u.gpu))
    (hinterp : s'.interp = Function.update s.interp u.gpu i)
    (hi : Step algo (s.interp u.gpu) (.finish u.bid u.sid) i) (h : s'.Runs v) :
    s.Runs v ∧ ¬ (v.gpu = u.gpu ∧ v.bid = u.bid) := by
  rcases runs_update hinterp h with ⟨hgpu, hmem⟩ | ⟨hgpu, hold⟩
  · obtain ⟨hold, hbid⟩ := hi.running_finish hreached.accounted hmem
    refine ⟨?_, fun heq => hbid heq.2⟩
    rw [Runs, hgpu]
    exact hold
  · exact ⟨hold, fun heq => hgpu heq.1⟩

theorem runs_of_through (himp : AllImplemented algo) (hreached : Reached algo (s.interp u.gpu))
    (hbound : Bounded algo) (hinterp : s'.interp = Function.update s.interp u.gpu j)
    (hi : Step algo (s.interp u.gpu) (.fire (.runStep u.bid u.sid)) i)
    (hj : Step algo i (.finish u.bid u.sid) j) (h : s'.Runs v) : s.Runs v := by
  let t : Collective := { s with interp := Function.update s.interp u.gpu i }
  have hreached' : Reached algo (t.interp u.gpu) := by
    simp only [t, Function.update_self]
    exact ⟨hreached.accounted.step hi, hreached.inRange.step hi,
      hreached.flagged.step hbound hreached.accounted hreached.inRange hi⟩
  have hinterp' : s'.interp = Function.update t.interp u.gpu j := by
    rw [hinterp]
    simp only [t, Function.update_idem]
  have hj' : Step algo (t.interp u.gpu) (.finish u.bid u.sid) j := by
    simpa only [t, Function.update_self] using hj
  obtain ⟨hmid, hother⟩ := idle_after_finish hreached' hinterp' hj' h
  have hupdate : t.interp = Function.update s.interp u.gpu i := rfl
  rcases runs_of_start himp hreached hupdate hi hmid with rfl | hold
  · exact absurd ⟨rfl, rfl⟩ hother
  · exact hold

end

/-- Nothing that runs is lost from the queues. -/
theorem Waiting.step (h : Waiting algos s) (hpaired : Paired algos counts)
    (himp : ∀ gpu algo, algos gpu = some algo → AllImplemented algo)
    (hbound : ∀ gpu algo, algos gpu = some algo → Bounded algo)
    (hreached : ∀ gpu algo, algos gpu = some algo → Reached algo (s.interp gpu))
    (hchange : Change cfg algos s s') : Waiting algos s' := by
  intro v htran hv
  -- where nothing was pending, no transfer waited
  have hfree {c c' : ConnId} {held : List UInt8} {peer : PeerRecv} (hpeer : s.receiving c = ⟨[], held⟩)
      (hne : (s.receiving c').pendingRecvQueue ≠ []) :
      (Function.update s.receiving c peer c').pendingRecvQueue ≠ [] := by
    apply update_pending_ne _ hne
    rintro rfl
    rw [hpeer] at hne
    exact absurd rfl hne
  cases hchange with
  | @control gpu algo e i halgo hrun hi =>
      apply h v htran
      rcases runs_update (s := s) rfl hv with ⟨hgpu, hmem⟩ | ⟨-, hold⟩
      · rw [(hi.control (hreached _ _ halgo).accounted hrun).running] at hmem
        rw [Runs, hgpu]
        exact hmem
      · exact hold
  | @send u algo tran c i captured halgo htran' htype hon hqueue hi =>
      rcases runs_of_start (s := s) (himp _ _ halgo) (hreached _ _ halgo) rfl hi hv with rfl | hold
      · left
        refine ⟨c, hon, ?_⟩
        simp only [Function.update_self]
        exact List.cons_ne_nil _ _
      · apply (h v htran hold).mono
        · exact fun c' _ hne => update_queue_ne (fun _ => List.cons_ne_nil _ _) hne
        · exact fun c' _ hne => hne
  | @copy u algo tran i j memory halgo htran' htype hi hj =>
      exact h v htran (runs_of_through (s := s) (himp _ _ halgo) (hreached _ _ halgo)
        (hbound _ _ halgo) rfl hi hj hv)
  | @wait u algo tran kind c i held memory halgo htran' htype hon hpeer hi =>
      rcases runs_of_start (s := s) (himp _ _ halgo) (hreached _ _ halgo) rfl hi hv with rfl | hold
      · right
        refine ⟨c, hon, ?_⟩
        simp only [Function.update_self]
        exact List.cons_ne_nil _ _
      · apply (h v htran hold).mono
        · exact fun c' _ hne => hne
        · exact fun c' _ hne => hfree hpeer hne
  | @claim u algo tran kind c i j held rest memory halgo htran' htype hon hpeer hi hj =>
      have hold := runs_of_through (s := s) (himp _ _ halgo) (hreached _ _ halgo)
        (hbound _ _ halgo) rfl hi hj hv
      apply (h v htran hold).mono
      · exact fun c' _ hne => hne
      · exact fun c' _ hne => hfree hpeer hne
  | @emit u tran c m n payload htran' hon hruns hqueue hsource hpos hle hlen =>
      apply (h v htran hv).mono
      · exact fun c' _ hne => update_queue_ne (fun _ => List.cons_ne_nil _ _) hne
      · exact fun c' _ hne => hne
  | @sent u algo tran c m i halgo htran' hon hqueue hall hi =>
      obtain ⟨hold, hother⟩ := idle_after_finish (s := s) (hreached _ _ halgo) rfl hi hv
      apply (h v htran hold).mono
      · intro c' hon' hne
        apply update_queue_ne _ hne
        rintro rfl
        exact absurd (hpaired.block_eq hon' hon) hother
      · exact fun c' _ hne => hne
  | @store c payload held wire hwire hpeer =>
      apply (h v htran hv).mono
      · intro c' _ hne
        apply update_queue_ne _ hne
        rintro rfl
        exact hne
      · exact fun c' _ hne => hfree hpeer hne
  | @fill u tran kind c payload held wire memory hwire hpeer =>
      apply (h v htran hv).mono
      · intro c' _ hne
        apply update_queue_ne _ hne
        rintro rfl
        exact hne
      · exact fun c' _ hne => update_pending_ne (fun _ => List.cons_ne_nil _ _) hne
  | @land u algo tran kind c i payload wire memory halgo htran' htype hon hwire hi =>
      obtain ⟨hold, hother⟩ := idle_after_finish (s := s) (hreached _ _ halgo) rfl hi hv
      apply (h v htran hold).mono
      · intro c' _ hne
        apply update_queue_ne _ hne
        rintro rfl
        exact hne
      · intro c' hon' hne
        apply update_pending_ne _ hne
        rintro rfl
        exact absurd (hpaired.block_eq hon' hon) hother

end Collective

end CollectiveSim.Msccl
