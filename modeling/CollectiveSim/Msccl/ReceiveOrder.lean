import Mathlib
import CollectiveSim.Msccl.Receive

/-!
# The order of receives and bytes

The same receives and the same fragments in another order. Whether a fragment may reach beyond a receive
depends on whether that receive is posted when it arrives.
-/

namespace CollectiveSim.Msccl

open Framework

/-- The fragments of a run in the order of their arrival. -/
def arrivals : List RecvEvent → List (List UInt8)
  | [] => []
  | .arrive payload :: es => payload :: arrivals es
  | .post _ :: es => arrivals es

/-- All bytes arrive before the first receive is posted. -/
def dataFirst (es : List RecvEvent) : List RecvEvent :=
  (arrivals es).map .arrive ++ (posts es).map .post

/-- The call that an event makes. -/
def RecvEvent.call (cfg : AppConfig) (gpu : Nat) (memory : Memory) (peer : PeerRecv) :
    RecvEvent → Option RecvResult
  | .arrive payload => onBytesArrivedFromPeer cfg gpu payload memory peer
  | .post p =>
      claimOrRegisterPendingRecv cfg gpu p.bid p.sid (cfg.bytes p.count) p.dstBuf p.dstOffset p.op
        memory peer

/-- What the call of an event touches in the buffers. -/
def RecvEvent.touched (cfg : AppConfig) (gpu : Nat) (peer : PeerRecv) : RecvEvent → List Region
  | .arrive payload => arrivalTouched cfg gpu payload peer
  | .post p => claimTouched cfg gpu (cfg.bytes p.count) p.dstBuf p.dstOffset p.op peer

/-- The event touches nothing behind the end of an allocated buffer. -/
def InBuffers (cfg : AppConfig) (gpu : Nat) (s : Receiver) (e : RecvEvent) : Prop :=
  ∀ r ∈ e.touched cfg gpu s.peer, r.addr + r.size ≤ cfg.bufferBytes gpu r.buffer

/-- The run stays in the buffers and ends with the contents and the completed steps of the run in which
the bytes come first. -/
def OrderIndependent (cfg : AppConfig) (gpu : Nat) (memory : Memory) (es : List RecvEvent) : Prop :=
  ∃ s t, Run (Receiver.step cfg gpu) (InBuffers cfg gpu) (Receiver.initial memory) es s ∧
    Run (Receiver.step cfg gpu) (InBuffers cfg gpu) (Receiver.initial memory) (dataFirst es) t ∧
    s.memory = t.memory ∧ s.scheduled.Perm t.scheduled

/-- No fragment that arrives while a receive is pending has bytes behind the end of that receive. -/
def NoOvershoot (cfg : AppConfig) (es : List RecvEvent) : Prop :=
  ∀ bs payload cs, es = bs ++ .arrive payload :: cs → ∀ k,
    ¬ ((stream bs).length < totalSize cfg ((posts bs).take k) ∧
      totalSize cfg ((posts bs).take k) < (stream bs).length + payload.length)

/-- The bytes of the transfer end inside its buffer. -/
def PostedRecv.EndsInside (cfg : AppConfig) (gpu : Nat) (p : PostedRecv) : Prop :=
  p.dst cfg + p.size cfg ≤ cfg.bufferBytes gpu p.dstBuf

/-- A receive of no bytes is complete when it is posted. -/
def PostedRecv.isEmpty (cfg : AppConfig) (p : PostedRecv) : Bool := p.size cfg = 0

section

variable {cfg : AppConfig} {gpu : Nat} {memory : Memory} {es fs : List RecvEvent}
  {ps : List PostedRecv}

/-! ### Events and receives -/

theorem stream_eq_flatten (es : List RecvEvent) : stream es = (arrivals es).flatten := by
  induction es with
  | nil => rfl
  | cons e es ih =>
      cases e with
      | arrive payload => rw [stream, arrivals, List.flatten_cons, ih]
      | post p => exact ih

@[simp] theorem posts_map_arrive (payloads : List (List UInt8)) :
    posts (payloads.map .arrive) = [] := by
  induction payloads with
  | nil => rfl
  | cons payload payloads ih => exact ih

@[simp] theorem posts_map_post (ps : List PostedRecv) : posts (ps.map .post) = ps := by
  induction ps with
  | nil => rfl
  | cons p ps ih => rw [List.map_cons, posts, ih]

@[simp] theorem stream_map_post (ps : List PostedRecv) : stream (ps.map .post) = [] := by
  induction ps with
  | nil => rfl
  | cons p ps ih => exact ih

@[simp] theorem arrivals_map_arrive (payloads : List (List UInt8)) :
    arrivals (payloads.map .arrive) = payloads := by
  induction payloads with
  | nil => rfl
  | cons payload payloads ih => rw [List.map_cons, arrivals, ih]

theorem posts_dataFirst (es : List RecvEvent) : posts (dataFirst es) = posts es := by
  rw [dataFirst, posts_append, posts_map_arrive, posts_map_post, List.nil_append]

theorem stream_dataFirst (es : List RecvEvent) : stream (dataFirst es) = stream es := by
  rw [dataFirst, stream_append, stream_map_post, List.append_nil, stream_eq_flatten,
    arrivals_map_arrive, stream_eq_flatten]

theorem totalSize_filter (cfg : AppConfig) (ps : List PostedRecv) :
    totalSize cfg (ps.filter fun p => !p.isEmpty cfg) = totalSize cfg ps := by
  induction ps with
  | nil => rfl
  | cons p ps ih =>
      by_cases hp : p.size cfg = 0
      · rw [List.filter_cons_of_neg (by simp [PostedRecv.isEmpty, hp]), ih, totalSize_cons, hp,
          Nat.zero_add]
      · rw [List.filter_cons_of_pos (by simp [PostedRecv.isEmpty, hp]), totalSize_cons,
          totalSize_cons, ih]

theorem exists_take_filter (cfg : AppConfig) (ps : List PostedRecv) (k : Nat) :
    ∃ j, totalSize cfg (ps.take j) =
      totalSize cfg ((ps.filter fun p => !p.isEmpty cfg).take k) := by
  obtain ⟨front, back, rfl, hfront, -⟩ :=
    List.filter_eq_append_iff.mp (List.take_append_drop k (ps.filter fun p => !p.isEmpty cfg)).symm
  refine ⟨front.length, ?_⟩
  rw [List.take_left, ← hfront, totalSize_filter]

theorem totalSize_le_of_prefix (cfg : AppConfig) {qs : List PostedRecv} (h : qs <+: ps) :
    totalSize cfg qs ≤ totalSize cfg ps := by
  obtain ⟨rest, rfl⟩ := h
  rw [totalSize_append]
  exact Nat.le_add_right _ _

theorem size_le_totalSize (cfg : AppConfig) {ps : List PostedRecv} {p : PostedRecv} (h : p ∈ ps) :
    p.size cfg ≤ totalSize cfg ps := by
  obtain ⟨front, back, rfl⟩ := List.append_of_mem h
  rw [totalSize_append, totalSize_cons]
  omega

/-! ### Receives of no bytes beside the others -/

/-- The receives that are not empty match the bytes; the empty ones are complete. -/
def Consistent (cfg : AppConfig) (memory : Memory) (posted : List PostedRecv) (arrived : List UInt8)
    (s : Receiver) : Prop :=
  ∃ r, Matches cfg memory (posted.filter fun p => !p.isEmpty cfg) arrived r ∧
    s.memory = r.memory ∧ s.peer = r.peer ∧
    s.scheduled.Perm (r.scheduled ++ (posted.filter (PostedRecv.isEmpty cfg)).map PostedRecv.id)

theorem Receiver.step_eq_call (s : Receiver) (e : RecvEvent) :
    s.step cfg gpu e = (e.call cfg gpu s.memory s.peer).map s.record := by
  cases e <;> rfl

theorem Receiver.step_of_same {s r t : Receiver} {e : RecvEvent} (hmemory : s.memory = r.memory)
    (hpeer : s.peer = r.peer) (h : r.step cfg gpu e = some t) :
    ∃ completed, t.scheduled = r.scheduled ++ completed ∧
      s.step cfg gpu e = some ⟨t.memory, t.peer, s.scheduled ++ completed⟩ := by
  rw [step_eq_call, Option.map_eq_some_iff] at h
  obtain ⟨result, hcall, rfl⟩ := h
  refine ⟨result.completed.toList, rfl, ?_⟩
  rw [step_eq_call, hmemory, hpeer, hcall]
  rfl

theorem Consistent.initial (memory : Memory) :
    Consistent cfg memory [] [] (Receiver.initial memory) :=
  ⟨_, @Matches.early cfg memory [] [] [] rfl, rfl, rfl, List.Perm.refl _⟩

variable {arrived payload : List UInt8} {s t : Receiver} {p : PostedRecv}

theorem Consistent.step {posted : List PostedRecv} {e : RecvEvent} (h : Consistent cfg memory ps arrived s)
    (hempty : posted.filter (PostedRecv.isEmpty cfg) = ps.filter (PostedRecv.isEmpty cfg))
    {arrived' : List UInt8}
    (hstep : ∀ r, Matches cfg memory (ps.filter fun p => !p.isEmpty cfg) arrived r →
      ∃ t, r.step cfg gpu e = some t ∧
        Matches cfg memory (posted.filter fun p => !p.isEmpty cfg) arrived' t) :
    ∃ t, s.step cfg gpu e = some t ∧ Consistent cfg memory posted arrived' t := by
  obtain ⟨r, hmatches, hmemory, hpeer, hperm⟩ := h
  obtain ⟨t, ht, hnext⟩ := hstep r hmatches
  obtain ⟨completed, hscheduled, hs⟩ := Receiver.step_of_same hmemory hpeer ht
  refine ⟨_, hs, t, hnext, rfl, rfl, ?_⟩
  rw [hempty, hscheduled, List.append_assoc]
  have hswap := hperm.append_right completed
  rw [List.append_assoc] at hswap
  exact hswap.trans (List.Perm.append_left _ List.perm_append_comm)

theorem sizes_pos_filter (cfg : AppConfig) (ps : List PostedRecv) :
    ∀ p ∈ ps.filter (fun p => !p.isEmpty cfg), 0 < p.size cfg := by
  intro p hp
  have hne := (List.mem_filter.mp hp).2
  simp only [PostedRecv.isEmpty, Bool.not_eq_true', decide_eq_false_iff_not] at hne
  exact Nat.pos_of_ne_zero hne

theorem Consistent.arrive (h : Consistent cfg memory ps arrived s)
    (hplaced : ∀ p ∈ ps, p.Placed cfg gpu)
    (hcross : ∀ k, ¬ (arrived.length < totalSize cfg (ps.take k) ∧
      totalSize cfg (ps.take k) < arrived.length + payload.length))
    (hroom : arrived.length + payload.length < 2 ^ 32) :
    ∃ t, s.step cfg gpu (.arrive payload) = some t ∧
      Consistent cfg memory ps (arrived ++ payload) t := by
  apply h.step rfl
  intro r hmatches
  apply hmatches.arrive (fun p hp => hplaced p (List.mem_filter.mp hp).1)
    (fun _ _ q hq _ => sizes_pos_filter cfg ps q hq)
  · intro k
    obtain ⟨j, hj⟩ := exists_take_filter cfg ps k
    rw [← hj]
    exact hcross j
  · omega

theorem Receiver.step_post_empty (s : Receiver) (hp : p.Placed cfg gpu) (hempty : p.size cfg = 0) :
    s.step cfg gpu (.post p) = some ⟨s.memory, s.peer, s.scheduled ++ [p.id]⟩ := by
  have hoffset : ¬ p.dstOffset < 0 := Int.not_lt.mpr hp.offset
  have hplace := p.placeStaged_eq hp.ptr s.peer.unclaimedBytes 0 s.memory
  rw [List.take_zero, PostedRecv.receive_nil] at hplace
  simp [Receiver.step, claimOrRegisterPendingRecv, hoffset, hp.bytes, hempty, hplace,
    Receiver.record, PostedRecv.id]

theorem Consistent.post (h : Consistent cfg memory ps arrived s) (hp : p.Placed cfg gpu) :
    ∃ t, s.step cfg gpu (.post p) = some t ∧ Consistent cfg memory (ps ++ [p]) arrived t := by
  by_cases hempty : p.size cfg = 0
  · obtain ⟨r, hmatches, hmemory, hpeer, hperm⟩ := h
    refine ⟨_, s.step_post_empty hp hempty, r, ?_, hmemory, hpeer, ?_⟩
    · rw [List.filter_append, List.filter_singleton]
      simpa [PostedRecv.isEmpty, hempty] using hmatches
    · rw [List.filter_append, List.filter_singleton]
      simpa [PostedRecv.isEmpty, hempty] using hperm.append_right [p.id]
  · have hkeep : (ps ++ [p]).filter (fun p => !p.isEmpty cfg) =
        (ps.filter fun p => !p.isEmpty cfg) ++ [p] := by
      rw [List.filter_append, List.filter_singleton]
      simp [PostedRecv.isEmpty, hempty]
    apply h.step
    · rw [List.filter_append, List.filter_singleton]
      simp [PostedRecv.isEmpty, hempty]
    · intro r hmatches
      rw [hkeep]
      exact hmatches.post hp fun _ _ _ => Nat.pos_of_ne_zero hempty

theorem size_le_of_prefix {done rest front : List PostedRecv}
    (hfront : front <+: done ++ p :: rest) (hlt : totalSize cfg done < totalSize cfg front) :
    totalSize cfg done + p.size cfg ≤ totalSize cfg front := by
  rcases List.prefix_or_prefix_of_prefix hfront (List.prefix_append done _) with h | h
  · have hle := totalSize_le_of_prefix cfg h
    omega
  · obtain ⟨tail, rfl⟩ := h
    have htail := (List.prefix_append_right_inj done).mp hfront
    cases tail with
    | nil =>
        rw [List.append_nil] at hlt
        exact absurd hlt (Nat.lt_irrefl _)
    | cons q tail =>
        obtain ⟨rfl, -⟩ := List.cons_prefix_cons.mp htail
        rw [totalSize_append, totalSize_cons]
        omega

theorem Consistent.overshoot (h : Consistent cfg memory ps arrived s) {k : Nat}
    (hplaced : ∀ p ∈ ps, p.Placed cfg gpu)
    (hlo : arrived.length < totalSize cfg (ps.take k))
    (hhi : totalSize cfg (ps.take k) < arrived.length + payload.length) :
    s.step cfg gpu (.arrive payload) = none := by
  obtain ⟨r, hmatches, hmemory, hpeer, -⟩ := h
  obtain ⟨memory', peer, scheduled⟩ := s
  simp only at hmemory hpeer
  generalize hnz : ps.filter (fun p => !p.isEmpty cfg) = nz at hmatches
  have hfront : (ps.take k).filter (fun p => !p.isEmpty cfg) <+: nz := by
    rw [← hnz]
    exact (List.take_prefix k ps).filter _
  rw [← totalSize_filter] at hlo hhi
  cases hmatches with
  | @early _ bytes unclaimed hlen =>
      have hle := totalSize_le_of_prefix cfg hfront
      rw [List.length_append] at hlo
      omega
  | @waiting done bytes p rest data hlen hdata =>
      rw [List.length_append] at hlo hhi
      have hbehind : totalSize cfg done <
          totalSize cfg ((ps.take k).filter fun p => !p.isEmpty cfg) := by omega
      have hend := size_le_of_prefix hfront hbehind
      have hp : p ∈ ps := by
        have hmem : p ∈ done ++ p :: rest := List.mem_append_right _ List.mem_cons_self
        rw [← hnz] at hmem
        exact (List.mem_filter.mp hmem).1
      have hstage := p.stageBytes_eq (hplaced p hp).ptr data payload (deliver cfg done bytes memory)
      have hless : ¬ data.length + payload.length < p.size cfg := by omega
      have hmore : p.size cfg < data.length + payload.length := by omega
      subst hmemory hpeer
      simp [Receiver.step, onBytesArrivedFromPeer, PostedRecv.pending, hstage, hless, hmore]

theorem Consistent.inBuffers_arrive (h : Consistent cfg memory ps arrived s)
    (hends : ∀ p ∈ ps, p.EndsInside cfg gpu)
    (hcross : ∀ k, ¬ (arrived.length < totalSize cfg (ps.take k) ∧
      totalSize cfg (ps.take k) < arrived.length + payload.length)) :
    InBuffers cfg gpu s (.arrive payload) := by
  intro region hregion
  obtain ⟨cur, queue, hqueue, -, pos, n, rfl, hroom⟩ := eq_of_mem_arrivalTouched hregion
  obtain ⟨r, hmatches, -, hpeer, -⟩ := h
  rw [hpeer] at hqueue
  generalize hnz : ps.filter (fun p => !p.isEmpty cfg) = nz at hmatches
  cases hmatches with
  | early unclaimed hlen => cases hqueue
  | @waiting done bytes p rest data hlen hdata =>
      obtain ⟨rfl, -⟩ := List.cons_eq_cons.mp hqueue
      have hp : p ∈ ps := by
        have hmem : p ∈ done ++ p :: rest := List.mem_append_right _ List.mem_cons_self
        rw [← hnz] at hmem
        exact (List.mem_filter.mp hmem).1
      have hend := hends p hp
      obtain ⟨j, hj⟩ := exists_take_filter cfg ps (done.length + 1)
      have hless := hcross j
      rw [hj, hnz, List.take_length_add_append, List.take_succ_cons, List.take_zero,
        totalSize_append, totalSize_cons, totalSize_nil, List.length_append] at hless
      have hfits := hroom fun _ => show data.length + payload.length ≤ p.size cfg by omega
      simp only [PostedRecv.EndsInside, PostedRecv.dst, PostedRecv.pending] at hend hfits ⊢
      omega

theorem Receiver.inBuffers_post (s : Receiver) (hp : p.Placed cfg gpu)
    (hend : p.EndsInside cfg gpu) : InBuffers cfg gpu s (.post p) := by
  intro region hregion
  obtain ⟨-, -, n, hn, rfl⟩ := eq_of_mem_claimTouched hregion
  rw [hp.bytes] at hn
  simp only [PostedRecv.EndsInside, PostedRecv.dst] at hend ⊢
  omega

theorem Consistent.endsInside (h : Consistent cfg memory ps arrived s) (hp : p.Placed cfg gpu)
    (hpos : 0 < p.size cfg) (harrived : totalSize cfg ps + p.size cfg ≤ arrived.length)
    (hin : InBuffers cfg gpu s (.post p)) : p.EndsInside cfg gpu := by
  obtain ⟨r, hmatches, -, hpeer, -⟩ := h
  rw [← totalSize_filter] at harrived
  generalize ps.filter (fun p => !p.isEmpty cfg) = nz at hmatches harrived
  cases hmatches with
  | @early _ bytes unclaimed hlen =>
      rw [List.length_append] at harrived
      have hregion : cfg.regionAt gpu p.dstBuf p.dstOffset 0 (p.size cfg) =
          some ⟨p.dstBuf, p.dst cfg + 0, p.size cfg⟩ :=
        AppConfig.regionAt_eq_some_iff.mpr ⟨(cfg.getBufferPtr_eq_some_iff.mp hp.ptr).2, rfl⟩
      have htouched : ⟨p.dstBuf, p.dst cfg + 0, p.size cfg⟩ ∈
          RecvEvent.touched cfg gpu s.peer (.post p) := by
        rw [hpeer, RecvEvent.touched, claimTouched, hp.bytes]
        simp only
        rw [if_neg (by have := hp.offset; omega), if_pos (by omega)]
        cases p.op with
        | recv => exact List.mem_append_left _ (Option.mem_toList.mpr hregion)
        | recvReduceCopy => exact List.mem_append_right _ (Option.mem_toList.mpr hregion)
      exact hin _ htouched
  | @waiting done bytes q rest data hlen hdata =>
      rw [List.length_append, totalSize_append, totalSize_cons] at harrived
      omega

/-! ### Every interleaving -/

theorem NoOvershoot.of_append (h : NoOvershoot cfg (es ++ fs)) : NoOvershoot cfg es := by
  intro bs payload cs heq
  exact h bs payload (cs ++ fs) (by rw [heq, List.append_assoc]; rfl)

theorem NoOvershoot.snoc (h : NoOvershoot cfg es) {e : RecvEvent}
    (hlast : ∀ payload, e = .arrive payload → ∀ k,
      ¬ ((stream es).length < totalSize cfg ((posts es).take k) ∧
        totalSize cfg ((posts es).take k) < (stream es).length + payload.length)) :
    NoOvershoot cfg (es ++ [e]) := by
  intro bs payload cs heq
  rcases List.eq_nil_or_concat cs with rfl | ⟨cs, c, rfl⟩
  · obtain ⟨rfl, hone⟩ := List.append_inj' heq rfl
    exact hlast payload (List.singleton_inj.mp hone)
  · rw [List.concat_eq_append, ← List.cons_append, ← List.append_assoc] at heq
    exact h bs payload cs (List.append_inj' heq rfl).1

theorem noOvershoot_dataFirst (cfg : AppConfig) (es : List RecvEvent) :
    NoOvershoot cfg (dataFirst es) := by
  rw [dataFirst]
  generalize posts es = ps
  induction ps using List.reverseRecOn with
  | nil =>
      rintro bs payload cs heq k ⟨hlo, -⟩
      -- nothing is posted in front of the fragment
      have hposts := congrArg posts heq
      rw [List.map_nil, List.append_nil, posts_map_arrive, posts_append] at hposts
      rw [(List.append_eq_nil_iff.mp hposts.symm).1, List.take_nil] at hlo
      cases hlo
  | append_singleton ps p ih =>
      rw [List.map_append, ← List.append_assoc]
      apply ih.snoc
      intro payload h
      cases h

/-- A run to which nothing has happened that stops it. -/
theorem exists_consistent (memory : Memory) (es : List RecvEvent)
    (hplaced : ∀ p ∈ posts es, p.Placed cfg gpu)
    (hends : ∀ p ∈ posts es, p.EndsInside cfg gpu) (hsmall : (stream es).length < 2 ^ 32)
    (hover : NoOvershoot cfg es) :
    ∃ s, Run (Receiver.step cfg gpu) (InBuffers cfg gpu) (Receiver.initial memory) es s ∧
      Consistent cfg memory (posts es) (stream es) s := by
  induction es using List.reverseRecOn with
  | nil => exact ⟨_, .nil _, Consistent.initial memory⟩
  | append_singleton es e ih =>
      rw [stream_append, List.length_append] at hsmall
      rw [posts_append] at hplaced hends
      have hplaced' := fun p hp => hplaced p (List.mem_append_left _ hp)
      have hends' := fun p hp => hends p (List.mem_append_left _ hp)
      obtain ⟨s, hrun, hcons⟩ := ih hplaced' hends' (by omega) hover.of_append
      cases e with
      | arrive payload =>
          simp only [stream, List.append_nil] at hsmall
          have hcross := hover es payload [] rfl
          obtain ⟨t, hstep, hnext⟩ := hcons.arrive hplaced' hcross hsmall
          have hin := hcons.inBuffers_arrive hends' hcross
          refine ⟨t, hrun.append (.cons hin hstep (.nil t)), ?_⟩
          simpa [posts, stream] using hnext
      | post p =>
          have hp := hplaced p (by simp [posts])
          obtain ⟨t, hstep, hnext⟩ := hcons.post hp
          have hin := s.inBuffers_post hp (hends p (by simp [posts]))
          refine ⟨t, hrun.append (.cons hin hstep (.nil t)), ?_⟩
          simpa [posts, stream] using hnext

/-- A run that was not stopped. -/
theorem consistent_of_run {s : Receiver} (hplaced : ∀ p ∈ posts es, p.Placed cfg gpu)
    (hsmall : (stream es).length < 2 ^ 32)
    (hrun : Run (Receiver.step cfg gpu) anyEvent (Receiver.initial memory) es s) :
    NoOvershoot cfg es ∧ Consistent cfg memory (posts es) (stream es) s := by
  induction es using List.reverseRecOn generalizing s with
  | nil =>
      cases hrun
      exact ⟨fun bs payload cs h => by simp at h, Consistent.initial memory⟩
  | append_singleton es e ih =>
      rw [stream_append, List.length_append] at hsmall
      rw [posts_append] at hplaced
      obtain ⟨t, hfront, hlast⟩ := hrun.of_append
      obtain ⟨hover, hcons⟩ := ih (fun p hp => hplaced p (List.mem_append_left _ hp)) (by omega)
        hfront
      cases hlast with
      | cons _ hstep hrest =>
          cases hrest
          cases e with
          | arrive payload =>
              simp only [stream, List.append_nil] at hsmall
              have hplaced' := fun p hp => hplaced p (List.mem_append_left _ hp)
              have hcross : ∀ k, ¬ ((stream es).length < totalSize cfg ((posts es).take k) ∧
                  totalSize cfg ((posts es).take k) < (stream es).length + payload.length) := by
                rintro k ⟨hlo, hhi⟩
                rw [hcons.overshoot hplaced' hlo hhi] at hstep
                cases hstep
              obtain ⟨t', hstep', hnext⟩ := hcons.arrive hplaced' hcross hsmall
              obtain rfl := Option.some_inj.mp (hstep.symm.trans hstep')
              refine ⟨hover.snoc fun payload' h => ?_, by simpa [posts, stream] using hnext⟩
              cases h
              exact hcross
          | post p =>
              obtain ⟨t', hstep', hnext⟩ := hcons.post (hplaced p (by simp [posts]))
              obtain rfl := Option.some_inj.mp (hstep.symm.trans hstep')
              refine ⟨hover.snoc fun payload h => ?_, by simpa [posts, stream] using hnext⟩
              cases h

theorem Consistent.same {s t : Receiver} {arrived : List UInt8}
    (hs : Consistent cfg memory ps arrived s) (ht : Consistent cfg memory ps arrived t) :
    s.memory = t.memory ∧ s.scheduled.Perm t.scheduled := by
  obtain ⟨r, hmatches, hmemory, -, hperm⟩ := hs
  obtain ⟨r', hmatches', hmemory', -, hperm'⟩ := ht
  obtain ⟨hdeliver, hfinished, -⟩ := hmatches.deliver
  obtain ⟨hdeliver', hfinished', -⟩ := hmatches'.deliver
  rw [hfinished] at hperm
  rw [hfinished'] at hperm'
  exact ⟨by rw [hmemory, hmemory', hdeliver, hdeliver'], hperm.trans hperm'.symm⟩

theorem stream_lt_of_run_dataFirst {t : Receiver}
    (h : Run (Receiver.step cfg gpu) anyEvent (Receiver.initial memory) (dataFirst es) t) :
    (stream es).length < 2 ^ 32 := by
  obtain ⟨u, harrivals, -⟩ := h.of_append
  have hroom : (Receiver.initial memory).peer.unclaimedBytes.length < 2 ^ 32 := Nat.two_pow_pos 32
  have hlt := run_arrivals rfl hroom harrivals
  rw [stream_eq_flatten]
  exact (Nat.zero_add _).symm.trans_lt hlt

theorem endsInside_of_run_dataFirst {t : Receiver} (hplaced : ∀ p ∈ posts es, p.Placed cfg gpu)
    (hsmall : (stream es).length < 2 ^ 32) (htotal : totalSize cfg (posts es) = (stream es).length)
    (h : Run (Receiver.step cfg gpu) (InBuffers cfg gpu) (Receiver.initial memory) (dataFirst es) t) :
    ∀ p ∈ posts es, p.EndsInside cfg gpu := by
  intro p hp
  have hplacedP := hplaced p hp
  rcases Nat.eq_zero_or_pos (p.size cfg) with hzero | hpos
  · have hstart := (cfg.getBufferPtr_eq_some_iff.mp hplacedP.ptr).2
    rw [PostedRecv.EndsInside, hzero]
    exact hstart
  · obtain ⟨front, back, hsplit⟩ := List.append_of_mem hp
    rw [dataFirst, hsplit, List.map_append, List.map_cons, ← List.append_assoc] at h
    obtain ⟨u, hfront, hback⟩ := h.of_append
    have hposts : posts ((arrivals es).map .arrive ++ front.map .post) = front := by simp
    have hstream : stream ((arrivals es).map .arrive ++ front.map .post) = stream es := by
      rw [stream_append, stream_map_post, List.append_nil, stream_eq_flatten, arrivals_map_arrive,
        stream_eq_flatten]
    have hplaced' : ∀ q ∈ posts ((arrivals es).map .arrive ++ front.map .post),
        q.Placed cfg gpu := by
      intro q hq
      rw [hposts] at hq
      exact hplaced q (by rw [hsplit]; exact List.mem_append_left _ hq)
    have hcons := (consistent_of_run hplaced' (by rwa [hstream]) hfront.any).2
    rw [hposts, hstream] at hcons
    cases hback with
    | cons hin _ _ =>
        apply hcons.endsInside hplacedP hpos _ hin
        rw [← htotal, hsplit, totalSize_append, totalSize_cons]
        omega

/-- An order ends like the one in which all bytes come first if and only if these are less than
`2 ^ 32`, no fragment reaches beyond a pending receive, and every receive ends inside its buffer. -/
theorem orderIndependent_iff (cfg : AppConfig) (gpu : Nat) (memory : Memory) (es : List RecvEvent)
    (hdst : ∀ p ∈ posts es, 0 ≤ p.dstOffset ∧
      (cfg.getBufferPtr gpu p.dstBuf p.dstOffset).isSome)
    (htotal : totalSize cfg (posts es) = (stream es).length) :
    OrderIndependent cfg gpu memory es ↔
      (stream es).length < 2 ^ 32 ∧ NoOvershoot cfg es ∧ ∀ p ∈ posts es, p.EndsInside cfg gpu := by
  have hplaced (hsmall : (stream es).length < 2 ^ 32) :
      ∀ p ∈ posts es, p.Placed cfg gpu := by
    intro p hp
    obtain ⟨addr, haddr⟩ := Option.isSome_iff_exists.mp (hdst p hp).2
    have hle := size_le_totalSize cfg hp
    refine ⟨PostedRecv.bytes_eq (by omega), (hdst p hp).1, ?_⟩
    rw [haddr, cfg.getBufferPtr_eq_some haddr]
    rfl
  constructor
  · rintro ⟨s, t, hrun, hfirst, -, -⟩
    have hsmall := stream_lt_of_run_dataFirst hfirst.any
    exact ⟨hsmall, (consistent_of_run (hplaced hsmall) hsmall hrun.any).1,
      endsInside_of_run_dataFirst (hplaced hsmall) hsmall htotal hfirst⟩
  · rintro ⟨hsmall, hover, hends⟩
    obtain ⟨s, hrun, hs⟩ := exists_consistent memory es (hplaced hsmall) hends hsmall hover
    have hposts := posts_dataFirst es
    obtain ⟨t, hrun', ht⟩ := exists_consistent memory (dataFirst es)
      (by rw [hposts]; exact hplaced hsmall) (by rw [hposts]; exact hends)
      (by rwa [stream_dataFirst]) (noOvershoot_dataFirst cfg es)
    rw [posts_dataFirst, stream_dataFirst] at ht
    exact ⟨s, t, hrun, hrun', hs.same ht⟩

/-- The rest of a half-early reduction arrives. -/
theorem halfEarly_orderIndependent :
    OrderIndependent smallBuffers 0 (fun _ _ => 0) halfEarly := by
  have hover : NoOvershoot smallBuffers halfEarly := by
    have hfirst : NoOvershoot smallBuffers
        (dataFirst [.arrive [1, 0], .post (receiveOf .recvReduceCopy 2)]) :=
      noOvershoot_dataFirst _ _
    apply hfirst.snoc
    intro payload h k
    cases h
    have hsize : (receiveOf .recvReduceCopy 2).size smallBuffers = 4 := by decide
    have hk := totalSize_take_singleton smallBuffers (receiveOf .recvReduceCopy 2) k
    simp only [dataFirst, arrivals, posts, stream, List.map_cons, List.map_nil, List.cons_append,
      List.nil_append, List.length_cons, List.length_nil]
    omega
  have hends : ∀ p ∈ posts halfEarly,
      p.dst smallBuffers + p.size smallBuffers ≤ smallBuffers.bufferBytes 0 p.dstBuf := by decide
  exact (orderIndependent_iff smallBuffers 0 (fun _ _ => 0) halfEarly (by decide) (by decide)).mpr
    ⟨by decide, hover, hends⟩

/-- Two receives of one element and a fragment with the bytes of both. -/
def twoReceives : List RecvEvent :=
  [.post (receiveOf .recv 1), .post (receiveOf .recv 1), .arrive [1, 0, 2, 0]]

theorem not_orderIndependent :
    ¬ ∀ (cfg : AppConfig) (gpu : Nat) (memory : Memory) (es : List RecvEvent),
      (∀ p ∈ posts es, 0 ≤ p.dstOffset ∧ (cfg.getBufferPtr gpu p.dstBuf p.dstOffset).isSome) →
      (∀ p ∈ posts es, p.EndsInside cfg gpu) →
      totalSize cfg (posts es) = (stream es).length → OrderIndependent cfg gpu memory es := by
  intro hall
  have hends : ∀ p ∈ posts twoReceives,
      p.dst smallBuffers + p.size smallBuffers ≤ smallBuffers.bufferBytes 0 p.dstBuf := by decide
  obtain ⟨s, t, hrun, -⟩ := hall smallBuffers 0 (fun _ _ => 0) twoReceives (by decide) hends
    (by decide)
  have hplaced : ∀ p ∈ posts twoReceives, p.Placed smallBuffers 0 := by
    intro p hp
    have heq : p = receiveOf .recv 1 := by simpa [twoReceives, posts] using hp
    rw [heq]
    exact ⟨by decide, by decide, by decide⟩
  have hover := (consistent_of_run hplaced (by decide) hrun.any).1
  exact hover [.post (receiveOf .recv 1), .post (receiveOf .recv 1)] [1, 0, 2, 0] [] rfl 1 (by decide)

end

end CollectiveSim.Msccl
