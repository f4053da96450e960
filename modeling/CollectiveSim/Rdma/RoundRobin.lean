import CollectiveSim.Framework.RoundRobin
import CollectiveSim.Rdma.NetDevice

/-!
# Round robin over the queue pairs of a NIC

`RdmaEgressQueue` goes through its group of queue pairs from behind the one it dequeued last, and takes
the closed ones out of the group on the way. A queue pair is named by its pointer here, so that it can
be followed while the group is compacted.
-/

namespace CollectiveSim.Rdma

open Framework

/-- What `GetNextQindex` reads: the time, the paused classes, the packets of high priority, and the
queue pairs behind the pointers. -/
structure SendView where
  now : Int
  paused : Nat → Bool
  nAcks : Nat
  qp : Nat → NicQp

namespace SendView

variable (cfg : NicConfig) (view : SendView)

def eligible (p : Nat) : Bool :=
  !view.paused (view.qp p).pg && decide (0 < (view.qp p).getBytesLeft) &&
    !(view.qp p).isWinBound ((view.qp p).getWin cfg.varWin)

/-- Eligible, and its next packet may leave now. -/
def ready (p : Nat) : Bool := view.eligible cfg p && decide ((view.qp p).nextAvail ≤ view.now)

/-- A closed queue pair has no messages left. -/
def ClosedFinished (qps : List Nat) : Prop :=
  ∀ p ∈ qps, (view.qp p).closed = true → (view.qp p).messages = []

theorem ready_messages {p : Nat} (h : view.ready cfg p = true) : (view.qp p).messages ≠ [] := by
  intro hempty
  rw [ready, eligible, RdmaQueuePair.getBytesLeft, hempty] at h
  simp at h

end SendView

/-- `RdmaEgressQueue` with its group of queue pairs. -/
structure RdmaEgressQueue where
  qps : List Nat
  rrlast : Nat

namespace RdmaEgressQueue

variable (cfg : NicConfig) (view : SendView) (q : RdmaEgressQueue)

/-- The indices in the order of the loop, with their queue pairs. The sum has 32 bits. -/
def visit : List (Nat × Nat) :=
  (List.range q.qps.length).map fun k =>
    let idx := u32 (k + 1 + q.rrlast) % q.qps.length
    (idx, q.qps.getD idx 0)

/-- The loop of `GetNextQindex`: the index selected, and `min_finish_id`. -/
def scan : List (Nat × Nat) → Option Nat → Option Nat × Option Nat
  | [], minFinishId => (none, minFinishId)
  | (idx, p) :: rest, minFinishId =>
      if view.eligible cfg p then
        if (view.qp p).nextAvail > view.now then scan rest minFinishId else (some idx, minFinishId)
      else if (view.qp p).closed then scan rest (some (minFinishId.elim idx (min idx)))
      else scan rest minFinishId

/-- The loop that clears the closed queue pairs behind index `i`; the others move up to `nxt`. -/
def clearClosed : Nat → Nat → Option Nat → List Nat → Option Nat × List Nat
  | _, _, res, [] => (res, [])
  | i, nxt, res, p :: qps =>
      if (view.qp p).closed then clearClosed (i + 1) nxt res qps
      else
        let (res, kept) := clearClosed (i + 1) (nxt + 1) (if res = some i then some nxt else res) qps
        (res, p :: kept)

/-- `GetNextQindex`, with the queue pairs that it leaves in the group. -/
def getNextQindex : QIndex × List Nat :=
  if !view.paused ackQIdx && decide (0 < view.nAcks) then (.highPrio, q.qps)
  else
    let (res, minFinishId) := scan cfg view q.visit none
    let (res, qps) :=
      match minFinishId with
      | none => (res, q.qps)
      | some first =>
          let (res, kept) := clearClosed view (first + 1) first res (q.qps.drop (first + 1))
          (res, q.qps.take first ++ kept)
    (res.elim .nothing .qp, qps)

variable {cfg view q}

/-! ### What the loops compute -/

theorem visit_snd (h : q.rrlast + q.qps.length < 2 ^ 32) :
    q.visit.map Prod.snd = RoundRobin.order q.qps q.rrlast := by
  apply List.ext_getElem?
  intro k
  by_cases hk : k < q.qps.length
  · have hpos : 0 < q.qps.length := Nat.zero_lt_of_lt hk
    have hidx : (k + (q.rrlast + 1)) % q.qps.length < q.qps.length := Nat.mod_lt _ hpos
    have hsum : u32 (k + 1 + q.rrlast) = k + (q.rrlast + 1) := by
      rw [u32_of_lt (by omega)]
      omega
    rw [RoundRobin.order, List.getElem?_rotate hk, visit, List.map_map, List.getElem?_map,
      List.getElem?_range hk, List.getElem?_eq_getElem hidx]
    simp [hsum, hidx]
  · rw [List.getElem?_eq_none (by simp [visit]; omega),
      List.getElem?_eq_none (by simp [RoundRobin.order]; omega)]

theorem getElem?_of_mem_visit {i p : Nat} (h : (i, p) ∈ q.visit) : q.qps[i]? = some p := by
  obtain ⟨k, hk, heq⟩ := List.mem_map.mp h
  have hpos : 0 < q.qps.length := Nat.zero_lt_of_lt (List.mem_range.mp hk)
  have hidx : u32 (k + 1 + q.rrlast) % q.qps.length < q.qps.length := Nat.mod_lt _ hpos
  obtain ⟨rfl, rfl⟩ := Prod.mk.inj heq
  rw [List.getD_eq_getElem _ _ hidx, List.getElem?_eq_getElem hidx]

theorem scan_fst (xs : List (Nat × Nat)) (minFinishId : Option Nat) :
    (scan cfg view xs minFinishId).1 = (xs.find? fun x => view.ready cfg x.2).map Prod.fst := by
  induction xs generalizing minFinishId with
  | nil => rfl
  | cons x xs ih =>
      obtain ⟨idx, p⟩ := x
      rw [scan, List.find?_cons]
      by_cases heligible : view.eligible cfg p = true
      · by_cases hlate : (view.qp p).nextAvail > view.now
        · have hready : view.ready cfg p = false := by simp [SendView.ready, hlate]
          rw [if_pos heligible, if_pos hlate, hready]
          exact ih _
        · have hready : view.ready cfg p = true := by
            simp [SendView.ready, heligible, Int.not_lt.mp hlate]
          rw [if_pos heligible, if_neg hlate, hready]
          rfl
      · have hready : view.ready cfg p = false := by simp [SendView.ready, heligible]
        rw [if_neg heligible, hready]
        split
        · exact ih _
        · exact ih _

theorem scan_snd {xs : List (Nat × Nat)} {minFinishId : Option Nat} {first : Nat}
    (h : (scan cfg view xs minFinishId).2 = some first) :
    minFinishId = some first ∨ ∃ p, (first, p) ∈ xs ∧ (view.qp p).closed = true ∧
      view.ready cfg p = false := by
  induction xs generalizing minFinishId with
  | nil => exact Or.inl h
  | cons x xs ih =>
      obtain ⟨idx, p⟩ := x
      have hlift {m : Option Nat} (hrest : (scan cfg view xs m).2 = some first) :
          m = some first ∨ ∃ p', (first, p') ∈ (idx, p) :: xs ∧ (view.qp p').closed = true ∧
            view.ready cfg p' = false := by
        rcases ih hrest with hm | ⟨p', hmem, hp'⟩
        · exact Or.inl hm
        · exact Or.inr ⟨p', List.mem_cons_of_mem _ hmem, hp'⟩
      rw [scan] at h
      split at h
      · split at h
        · exact hlift h
        · exact Or.inl h
      · rename_i heligible
        split at h
        · rename_i hclosed
          rcases hlift h with hm | hlater
          · cases minFinishId with
            | none =>
                right
                cases hm
                exact ⟨p, List.mem_cons_self, hclosed, by simp [SendView.ready, heligible]⟩
            | some old =>
                rw [Option.elim_some, Option.some_inj] at hm
                by_cases hle : idx ≤ old
                · right
                  rw [Nat.min_eq_left hle] at hm
                  rw [← hm]
                  exact ⟨p, List.mem_cons_self, hclosed, by simp [SendView.ready, heligible]⟩
                · left
                  rw [Nat.min_eq_right (by omega)] at hm
                  rw [hm]
          · exact Or.inr hlater
        · exact hlift h

theorem clearClosed_snd (i nxt : Nat) (res : Option Nat) (qps : List Nat) :
    (clearClosed view i nxt res qps).2 = qps.filter fun p => !(view.qp p).closed := by
  induction qps generalizing i nxt res with
  | nil => rfl
  | cons p qps ih =>
      rw [clearClosed]
      by_cases hclosed : (view.qp p).closed = true
      · rw [if_pos hclosed, ih, List.filter_cons_of_neg (by simp [hclosed])]
      · rw [if_neg hclosed, List.filter_cons_of_pos (by simp [hclosed])]
        simp only [ih]

theorem clearClosed_fst_of_lt {i nxt r : Nat} (hr : r < i) (qps : List Nat) :
    (clearClosed view i nxt (some r) qps).1 = some r := by
  induction qps generalizing i nxt with
  | nil => rfl
  | cons p qps ih =>
      rw [clearClosed]
      by_cases hclosed : (view.qp p).closed = true
      · rw [if_pos hclosed]
        exact ih (by omega)
      · have hne : ¬ some r = some i := by
          rw [Option.some_inj]
          omega
        rw [if_neg hclosed, if_neg hne]
        exact ih (by omega)

theorem clearClosed_fst_none {i nxt : Nat} (qps : List Nat) :
    (clearClosed view i nxt none qps).1 = none := by
  induction qps generalizing i nxt with
  | nil => rfl
  | cons p qps ih =>
      rw [clearClosed]
      split
      · exact ih
      · exact ih

theorem clearClosed_fst {i nxt d p : Nat} {qps : List Nat} (hnxt : nxt ≤ i) (hp : qps[d]? = some p)
    (hopen : (view.qp p).closed = false) :
    ∃ j, (clearClosed view i nxt (some (i + d)) qps).1 = some (nxt + j) ∧
      (qps.filter fun p => !(view.qp p).closed)[j]? = some p := by
  induction qps generalizing i nxt d with
  | nil => cases hp
  | cons p' qps ih =>
      rw [clearClosed]
      cases d with
      | zero =>
          cases hp
          have hself : some (i + 0) = some i := rfl
          rw [if_neg (by simp [hopen]), if_pos hself]
          refine ⟨0, ?_, ?_⟩
          · exact clearClosed_fst_of_lt (by omega) qps
          · rw [List.filter_cons_of_pos (by simp [hopen])]
            rfl
      | succ d =>
          rw [List.getElem?_cons_succ] at hp
          have hshift : i + (d + 1) = i + 1 + d := by omega
          by_cases hclosed : (view.qp p').closed = true
          · rw [if_pos hclosed, List.filter_cons_of_neg (by simp [hclosed]), hshift]
            exact ih (by omega) hp
          · have hne : ¬ some (i + (d + 1)) = some i := by
              rw [Option.some_inj]
              omega
            have hup : nxt + 1 ≤ i + 1 := Nat.succ_le_succ hnxt
            obtain ⟨j, hj, hkept⟩ := ih hup hp
            rw [if_neg hclosed, if_neg hne, List.filter_cons_of_pos (by simp [hclosed]), hshift]
            refine ⟨j + 1, ?_, ?_⟩
            · simp only [hj]
              congr 1
              omega
            · rw [List.getElem?_cons_succ]
              exact hkept

/-! ### One selection -/

/-- What one call of `GetNextQindex` selects and leaves in the group. -/
structure Selects (cfg : NicConfig) (view : SendView) (q : RdmaEgressQueue) (res : QIndex)
    (kept : List Nat) : Prop where
  order : kept.Sublist q.qps
  removed : ∀ p ∈ q.qps, p ∈ kept ∨ ((view.qp p).closed = true ∧ (view.qp p).messages = [])
  highPrio : res = .highPrio ↔ view.paused ackQIdx = false ∧ 0 < view.nAcks
  first : ∀ j, res = .qp j → ∃ p, kept[j]? = some p ∧
    (RoundRobin.order q.qps q.rrlast).find? (view.ready cfg) = some p
  nothing : res = .nothing → ∀ p ∈ q.qps, view.ready cfg p = false

/-- The group without its closed queue pairs from index `first` on. -/
def clearFrom (view : SendView) (first : Nat) (qps : List Nat) : List Nat :=
  qps.take first ++ (qps.drop (first + 1)).filter fun p => !(view.qp p).closed

theorem clearFrom_sublist (first : Nat) (qps : List Nat) :
    (clearFrom view first qps).Sublist qps := by
  have hdrop : (qps.drop (first + 1)).Sublist (qps.drop first) := by
    rw [← List.drop_drop]
    exact List.drop_sublist 1 _
  have hfilter : ((qps.drop (first + 1)).filter fun p => !(view.qp p).closed).Sublist
      (qps.drop first) := List.filter_sublist.trans hdrop
  have happend := (List.Sublist.refl (qps.take first)).append hfilter
  rwa [List.take_append_drop] at happend

theorem mem_clearFrom {first p p' : Nat} {qps : List Nat} (hfirst : qps[first]? = some p')
    (hclosed : (view.qp p').closed = true) (hp : p ∈ qps) :
    p ∈ clearFrom view first qps ∨ (view.qp p).closed = true := by
  obtain ⟨front, back, rfl, rfl⟩ := RoundRobin.exists_split hfirst
  by_cases hp' : (view.qp p).closed = true
  · exact Or.inr hp'
  · left
    simp only [clearFrom, List.take_left', List.mem_append, List.mem_filter]
    rcases List.mem_append.mp hp with hfront | hback
    · exact Or.inl hfront
    · rcases List.mem_cons.mp hback with rfl | hback
      · exact absurd hclosed hp'
      · right
        have hdrop : (front ++ p' :: back).drop (front.length + 1) = back := by
          rw [List.drop_append]
          simp
        rw [hdrop]
        exact ⟨hback, by simp [hp']⟩

theorem clearClosed_index {first idx p p' : Nat} {qps : List Nat} (hfirst : qps[first]? = some p')
    (hclosed : (view.qp p').closed = true) (hidx : qps[idx]? = some p)
    (hopen : (view.qp p).closed = false) :
    ∃ j, (clearClosed view (first + 1) first (some idx) (qps.drop (first + 1))).1 = some j ∧
      (clearFrom view first qps)[j]? = some p := by
  obtain ⟨hlt, -⟩ := List.getElem?_eq_some_iff.mp hfirst
  have hlen : (qps.take first).length = first := List.length_take_of_le (Nat.le_of_lt hlt)
  rcases Nat.lt_trichotomy idx first with hbefore | heq | hbehind
  · refine ⟨idx, clearClosed_fst_of_lt (by omega) _, ?_⟩
    rw [clearFrom, List.getElem?_append_left (by rwa [hlen]), List.getElem?_take_of_lt hbefore]
    exact hidx
  · rw [heq, hfirst, Option.some_inj] at hidx
    rw [hidx, hopen] at hclosed
    cases hclosed
  · have hdrop : (qps.drop (first + 1))[idx - (first + 1)]? = some p := by
      rw [List.getElem?_drop, show first + 1 + (idx - (first + 1)) = idx by omega]
      exact hidx
    obtain ⟨j, hj, hkept⟩ := clearClosed_fst (Nat.le_succ first) hdrop hopen
    rw [show first + 1 + (idx - (first + 1)) = idx by omega] at hj
    refine ⟨first + j, hj, ?_⟩
    rw [clearFrom, List.getElem?_append_right (by omega), hlen, Nat.add_sub_cancel_left]
    exact hkept

theorem scan_visit (hsum : q.rrlast + q.qps.length < 2 ^ 32) {idx : Nat}
    (h : (scan cfg view q.visit none).1 = some idx) :
    ∃ p, q.qps[idx]? = some p ∧ view.ready cfg p = true ∧
      (RoundRobin.order q.qps q.rrlast).find? (view.ready cfg) = some p := by
  rw [scan_fst, Option.map_eq_some_iff] at h
  obtain ⟨⟨idx', p⟩, hfind, rfl⟩ := h
  have hready : view.ready cfg p = true := by
    have hfound := List.find?_some hfind
    exact hfound
  refine ⟨p, getElem?_of_mem_visit (List.mem_of_find?_eq_some hfind), hready, ?_⟩
  rw [← visit_snd hsum, List.find?_map, Option.map_eq_some_iff]
  exact ⟨_, hfind, rfl⟩

theorem scan_visit_none (hsum : q.rrlast + q.qps.length < 2 ^ 32)
    (h : (scan cfg view q.visit none).1 = none) : ∀ p ∈ q.qps, view.ready cfg p = false := by
  intro p hp
  rw [scan_fst, Option.map_eq_none_iff, List.find?_eq_none] at h
  have hmem : p ∈ q.visit.map Prod.snd := by
    rw [visit_snd hsum]
    exact RoundRobin.mem_order.mpr hp
  obtain ⟨x, hx, rfl⟩ := List.mem_map.mp hmem
  exact Bool.eq_false_iff.mpr (h x hx)

/-- A group whose closed queue pairs have no messages, and a sum of indices that has 32 bits. -/
structure Orderly (view : SendView) (q : RdmaEgressQueue) : Prop where
  closed : view.ClosedFinished q.qps
  sum : q.rrlast + q.qps.length < 2 ^ 32

theorem Orderly.open_of_ready (h : Orderly view q) {p : Nat} (hp : p ∈ q.qps)
    (hready : view.ready cfg p = true) : (view.qp p).closed = false := by
  by_contra hclosed
  exact SendView.ready_messages cfg view hready (h.closed p hp (by simpa using hclosed))

/-- The selection without the high priority: `scan`, and the compaction from the first closed one. -/
theorem selects_of_scan (h : Orderly view q)
    (hack : ¬ (view.paused ackQIdx = false ∧ 0 < view.nAcks)) {res first : Option Nat}
    (hscan : scan cfg view q.visit none = (res, first)) :
    Selects cfg view q (q.getNextQindex cfg view).1 (q.getNextQindex cfg view).2 := by
  have hcond : ¬ (!view.paused ackQIdx && decide (0 < view.nAcks)) = true := by
    simpa using hack
  have hres : (scan cfg view q.visit none).1 = res := by rw [hscan]
  rw [getNextQindex, if_neg hcond, hscan]
  cases first with
  | none =>
      refine ⟨List.Sublist.refl _, fun p hp => Or.inl hp, ?_, ?_, ?_⟩
      · cases res <;> simp [hack]
      · intro j hj
        cases res with
        | none => cases hj
        | some idx =>
            cases hj
            obtain ⟨p, hp, -, hfind⟩ := scan_visit h.sum hres
            exact ⟨p, hp, hfind⟩
      · intro hnothing
        cases res with
        | none => exact scan_visit_none h.sum hres
        | some idx => cases hnothing
  | some first =>
      have hsnd : (scan cfg view q.visit none).2 = some first := by rw [hscan]
      obtain ⟨p', hmem, hclosed, -⟩ := (scan_snd hsnd).resolve_left (by simp)
      have hfirst := getElem?_of_mem_visit hmem
      have hkept : q.qps.take first ++
          (clearClosed view (first + 1) first res (q.qps.drop (first + 1))).2 =
          clearFrom view first q.qps := by rw [clearClosed_snd, clearFrom]
      simp only [hkept]
      refine ⟨clearFrom_sublist first _, ?_, ?_, ?_, ?_⟩
      · intro p hp
        rcases mem_clearFrom hfirst hclosed hp with hin | hout
        · exact Or.inl hin
        · exact Or.inr ⟨hout, h.closed p hp hout⟩
      · cases (clearClosed view (first + 1) first res (q.qps.drop (first + 1))).1 <;> simp [hack]
      · intro j hj
        cases res with
        | none =>
            rw [clearClosed_fst_none] at hj
            cases hj
        | some idx =>
            obtain ⟨p, hp, hready, hfind⟩ := scan_visit h.sum hres
            have hopen := h.open_of_ready (List.mem_of_getElem? hp) hready
            obtain ⟨j', hj', hget⟩ := clearClosed_index hfirst hclosed hp hopen
            rw [hj'] at hj
            cases hj
            exact ⟨p, hget, hfind⟩
      · intro hnothing
        cases res with
        | none => exact scan_visit_none h.sum hres
        | some idx =>
            obtain ⟨p, hp, hready, -⟩ := scan_visit h.sum hres
            have hopen := h.open_of_ready (List.mem_of_getElem? hp) hready
            obtain ⟨j', hj', -⟩ := clearClosed_index hfirst hclosed hp hopen
            rw [hj'] at hnothing
            cases hnothing

theorem getNextQindex_selects (h : Orderly view q) :
    Selects cfg view q (q.getNextQindex cfg view).1 (q.getNextQindex cfg view).2 := by
  by_cases hack : view.paused ackQIdx = false ∧ 0 < view.nAcks
  · have hcond : (!view.paused ackQIdx && decide (0 < view.nAcks)) = true := by simpa using hack
    rw [getNextQindex, if_pos hcond]
    refine ⟨List.Sublist.refl _, fun p hp => Or.inl hp, by simp [hack], ?_, ?_⟩
    · intro j hj
      cases hj
    · intro hnothing
      cases hnothing
  · exact selects_of_scan h hack rfl

end RdmaEgressQueue

/-! ### Runs -/

/-- A NIC that sends: its queue, what it sees, and the queue pairs it has taken packets from. -/
structure NicSender where
  queue : RdmaEgressQueue
  view : SendView
  served : List Nat

inductive NicSenderEvent
  /-- Anything but the group of queue pairs changes. -/
  | change (view : SendView)
  /-- `RdmaQueuePairGroup::AddQp` -/
  | addQp (p : Nat)
  /-- `GetNextQindex`, and `DequeueQindex` on what it returns. -/
  | dequeue

namespace NicSender

/-- `none` where a queue pair is added twice, or where `DequeueQindex` reads behind the group. -/
def step (cfg : NicConfig) (s : NicSender) : NicSenderEvent → Option NicSender
  | .change view => some { s with view := view }
  | .addQp p =>
      if p ∈ s.queue.qps then none
      else some { s with queue := { s.queue with qps := s.queue.qps ++ [p] } }
  | .dequeue =>
      let (res, kept) := s.queue.getNextQindex cfg s.view
      match res with
      | .qp j => kept[j]?.map fun p =>
          { s with queue := ⟨kept, j⟩, served := s.served ++ [p] }
      | .highPrio => some { s with queue := ⟨kept, s.queue.rrlast⟩ }
      | .nothing => some { s with queue := ⟨kept, s.queue.rrlast⟩ }

/-- Whenever the NIC dequeues, its group is orderly and `p` may send. -/
def KeepsReady (cfg : NicConfig) (p : Nat) (s : NicSender) (e : NicSenderEvent) : Prop :=
  e = .dequeue → s.queue.Orderly s.view ∧ s.view.ready cfg p = true

/-- The queue pairs that the events add. -/
def nAdded : List NicSenderEvent → Nat
  | [] => 0
  | .addQp _ :: es => nAdded es + 1
  | _ :: es => nAdded es

variable {cfg : NicConfig} {s t : NicSender} {p resident : Nat}

/-- How long `p` can still wait: the queue pairs served since the beginning and those in front of it
are fewer than those resident then or added since. `m_rrlast` may lie behind the group until the first
is served. -/
structure Waits (p served resident : Nat) (s : NicSender) : Prop where
  nodup : s.queue.qps.Nodup
  mem : p ∈ s.queue.qps
  length : s.queue.qps.length ≤ resident
  last : s.served.length = served ∨ s.queue.rrlast < s.queue.qps.length
  waits : s.served.length + RoundRobin.rank s.queue.qps s.queue.rrlast p < served + resident

theorem step_dequeue (horderly : s.queue.Orderly s.view) (hp : p ∈ s.queue.qps)
    (hready : s.view.ready cfg p = true) (h : s.step cfg .dequeue = some t) :
    t = s ∨ ∃ q j, t.served = s.served ++ [q] ∧ t.queue.rrlast = j ∧ t.queue.qps[j]? = some q ∧
      (RoundRobin.order s.queue.qps s.queue.rrlast).find? (s.view.ready cfg) = some q ∧
      t.queue.qps.Sublist s.queue.qps ∧ p ∈ t.queue.qps := by
  have hsel : s.queue.Selects cfg s.view (s.queue.getNextQindex cfg s.view).1
      (s.queue.getNextQindex cfg s.view).2 := RdmaEgressQueue.getNextQindex_selects horderly
  cases hnext : s.queue.getNextQindex cfg s.view with
  | mk res kept =>
      rw [hnext] at hsel
      simp only [step, hnext] at h
      cases res with
      | highPrio =>
          left
          have hack : (!s.view.paused ackQIdx && decide (0 < s.view.nAcks)) = true := by
            simpa using hsel.highPrio.mp rfl
          rw [RdmaEgressQueue.getNextQindex, if_pos hack, Prod.mk.injEq] at hnext
          rw [← hnext.2] at h
          cases h
          rfl
      | nothing =>
          have hnot := hsel.nothing rfl p hp
          rw [hready] at hnot
          cases hnot
      | qp j =>
          right
          obtain ⟨q, hq, hfind⟩ := hsel.first j rfl
          simp only [hq, Option.map_some, Option.some_inj] at h
          cases h
          refine ⟨q, j, rfl, rfl, hq, hfind, hsel.order, ?_⟩
          rcases hsel.removed p hp with hin | ⟨hclosed, -⟩
          · exact hin
          · rw [horderly.open_of_ready hp hready] at hclosed
            cases hclosed

theorem Waits.served {served resident q j : Nat} (h : Waits p served resident s)
    (hready : s.view.ready cfg p = true) (hserved : t.served = s.served ++ [q])
    (hlast : t.queue.rrlast = j) (hj : t.queue.qps[j]? = some q)
    (hfind : (RoundRobin.order s.queue.qps s.queue.rrlast).find? (s.view.ready cfg) = some q)
    (hsub : t.queue.qps.Sublist s.queue.qps) (hp : p ∈ t.queue.qps) (hne : q ≠ p) :
    Waits p served resident t := by
  obtain ⟨hjlt, -⟩ := List.getElem?_eq_some_iff.mp hj
  have hle := RoundRobin.rank_le_of_find? hfind hready
  have hrank : RoundRobin.rank s.queue.qps s.queue.rrlast q ≠
      RoundRobin.rank s.queue.qps s.queue.rrlast p := by
    intro heq
    have hmem : q ∈ RoundRobin.order s.queue.qps s.queue.rrlast :=
      List.mem_of_find?_eq_some hfind
    exact hne ((List.idxOf_inj hmem).mp heq)
  have hlower := RoundRobin.rank_served h.nodup hsub hj hp (Nat.lt_of_le_of_ne hle hrank)
  have hwaits := h.waits
  refine ⟨h.nodup.sublist hsub, hp, hsub.length_le.trans h.length, ?_, ?_⟩
  · right
    rw [hlast]
    exact hjlt
  · rw [hserved, hlast, List.length_append, List.length_singleton]
    omega

theorem Waits.addQp {served resident x : Nat} (h : Waits p served resident s)
    (hx : x ∉ s.queue.qps) (ht : t = { s with queue := { s.queue with qps := s.queue.qps ++ [x] } }) :
    Waits p served (resident + 1) t := by
  have hmem : p ∈ s.queue.qps ++ [x] := List.mem_append_left _ h.mem
  have hlength := h.length
  have hwaits := h.waits
  rw [ht]
  refine ⟨?_, hmem, ?_, ?_, ?_⟩
  · rw [List.nodup_append]
    refine ⟨h.nodup, List.nodup_singleton x, ?_⟩
    intro y hy z hz heq
    rw [List.mem_singleton] at hz
    exact hx (hz ▸ heq ▸ hy)
  · simpa using hlength
  · rcases h.last with hnone | hlt
    · exact Or.inl hnone
    · right
      show s.queue.rrlast < (s.queue.qps ++ [x]).length
      rw [List.length_append]
      omega
  · by_cases hlt : s.queue.rrlast < s.queue.qps.length
    · have hrank := RoundRobin.rank_append hlt p x
      show s.served.length + RoundRobin.rank (s.queue.qps ++ [x]) s.queue.rrlast p < _
      omega
    · -- `m_rrlast` is stale, so nothing has been served yet
      have hnone := h.last.resolve_right hlt
      have hrank : RoundRobin.rank (s.queue.qps ++ [x]) s.queue.rrlast p < (s.queue.qps ++ [x]).length :=
        RoundRobin.rank_lt hmem
      rw [List.length_append, List.length_singleton] at hrank
      show s.served.length + RoundRobin.rank (s.queue.qps ++ [x]) s.queue.rrlast p < _
      omega

theorem nAdded_cons (e : NicSenderEvent) (es : List NicSenderEvent) :
    nAdded (e :: es) = nAdded [e] + nAdded es := by
  cases e with
  | change => simp [nAdded]
  | addQp => simp [nAdded, Nat.add_comm]
  | dequeue => simp [nAdded]

theorem step_waits {served resident : Nat} {e : NicSenderEvent} (h : Waits p served resident s)
    (hok : KeepsReady cfg p s e) (hstep : s.step cfg e = some t) :
    ∃ new, t.served = s.served ++ new ∧
      (p ∈ new ∨ Waits p served (resident + nAdded [e]) t) := by
  cases e with
  | change view =>
      cases hstep
      exact ⟨[], by simp, Or.inr ⟨h.nodup, h.mem, h.length, h.last, h.waits⟩⟩
  | addQp x =>
      rw [step] at hstep
      split at hstep
      · cases hstep
      · rename_i hx
        cases hstep
        exact ⟨[], by simp, Or.inr (h.addQp hx rfl)⟩
  | dequeue =>
      obtain ⟨horderly, hready⟩ := hok rfl
      rcases step_dequeue horderly h.mem hready hstep with
        rfl | ⟨q, j, hserved, hlast, hj, hfind, hsub, hp⟩
      · exact ⟨[], by simp, Or.inr h⟩
      · refine ⟨[q], hserved, ?_⟩
        by_cases hne : q = p
        · exact Or.inl (hne ▸ List.mem_singleton_self q)
        · exact Or.inr (h.served hready hserved hlast hj hfind hsub hp hne)

theorem step_served {e : NicSenderEvent} (hstep : s.step cfg e = some t) :
    ∃ new, t.served = s.served ++ new := by
  cases e with
  | change view =>
      cases hstep
      exact ⟨[], by simp⟩
  | addQp x =>
      rw [step] at hstep
      split at hstep
      · cases hstep
      · cases hstep
        exact ⟨[], by simp⟩
  | dequeue =>
      cases hnext : s.queue.getNextQindex cfg s.view with
      | mk res kept =>
          simp only [step, hnext] at hstep
          cases res with
          | highPrio =>
              cases hstep
              exact ⟨[], by simp⟩
          | nothing =>
              cases hstep
              exact ⟨[], by simp⟩
          | qp j =>
              obtain ⟨q, -, rfl⟩ := Option.map_eq_some_iff.mp hstep
              exact ⟨[q], rfl⟩

theorem run_served {ok : NicSender → NicSenderEvent → Prop} {es : List NicSenderEvent}
    (hrun : Run (step cfg) ok s es t) : ∃ new, t.served = s.served ++ new := by
  induction hrun with
  | nil s => exact ⟨[], by simp⟩
  | cons _ hstep _ ih =>
      obtain ⟨new, hnew⟩ := step_served hstep
      obtain ⟨new', hnew'⟩ := ih
      exact ⟨new ++ new', by rw [hnew', hnew, List.append_assoc]⟩

/-- In a run in which `p` stays ready it has been served, or it still waits. -/
theorem run_waits {served resident : Nat} {es : List NicSenderEvent}
    (hrun : Run (step cfg) (KeepsReady cfg p) s es t) (h : Waits p served resident s) :
    ∃ new, t.served = s.served ++ new ∧
      (p ∈ new ∨ Waits p served (resident + nAdded es) t) := by
  induction hrun generalizing resident with
  | nil s => exact ⟨[], by simp, Or.inr h⟩
  | @cons s u t e es hok hstep hrest ih =>
      obtain ⟨new, hnew, hp | hwaits⟩ := step_waits h hok hstep
      · obtain ⟨new', hnew'⟩ := run_served hrest
        exact ⟨new ++ new', by rw [hnew', hnew, List.append_assoc],
          Or.inl (List.mem_append_left _ hp)⟩
      · obtain ⟨new', hnew', hlater⟩ := ih hwaits
        refine ⟨new ++ new', by rw [hnew', hnew, List.append_assoc], ?_⟩
        rcases hlater with hp | hwaits
        · exact Or.inl (List.mem_append_right _ hp)
        · right
          rwa [nAdded_cons, ← Nat.add_assoc]

theorem mem_served {es : List NicSenderEvent} (hrun : Run (step cfg) (KeepsReady cfg p) s es t)
    (hnodup : s.queue.qps.Nodup) (hp : p ∈ s.queue.qps) :
    ∃ new, t.served = s.served ++ new ∧
      (s.queue.qps.length + nAdded es ≤ new.length → p ∈ new) := by
  have hrank : RoundRobin.rank s.queue.qps s.queue.rrlast p < s.queue.qps.length :=
    RoundRobin.rank_lt hp
  have hstart : Waits p s.served.length s.queue.qps.length s :=
    ⟨hnodup, hp, Nat.le_refl _, Or.inl rfl, Nat.add_lt_add_left hrank _⟩
  obtain ⟨new, hnew, hp | hwaits⟩ := run_waits hrun hstart
  · exact ⟨new, hnew, fun _ => hp⟩
  · refine ⟨new, hnew, fun hmany => ?_⟩
    have hlate := hwaits.waits
    rw [hnew, List.length_append] at hlate
    omega

end NicSender

/-! ### The same selection in the device -/

/-- The queue and what it sees are those of the device. -/
structure SameNic (view : SendView) (q : RdmaEgressQueue) (nic : Nic) : Prop where
  now : nic.now = view.now
  paused : nic.paused = view.paused
  nAcks : nic.ackQ.length = view.nAcks
  qps : nic.qps = q.qps.map view.qp
  rrlast : nic.rrlast = q.rrlast

namespace SameNic

open RdmaEgressQueue

variable {cfg : NicConfig} {view : SendView} {q : RdmaEgressQueue} {nic : Nic}

theorem eligible (h : SameNic view q nic) (p : Nat) :
    nic.eligible cfg (view.qp p) = view.eligible cfg p := by
  rw [Nic.eligible, SendView.eligible, h.paused]

theorem scan (h : SameNic view q nic) (xs : List (Nat × Nat)) (minFinishId : Option Nat) :
    nic.scan cfg (xs.map fun x => (x.1, view.qp x.2)) minFinishId =
      RdmaEgressQueue.scan cfg view xs minFinishId := by
  induction xs generalizing minFinishId with
  | nil => rfl
  | cons x xs ih =>
      obtain ⟨idx, p⟩ := x
      rw [List.map_cons, Nic.scan, RdmaEgressQueue.scan, h.eligible, h.now]
      simp only [ih]

theorem clearClosed (i nxt : Nat) (res : Option Nat) (qps : List Nat) :
    Nic.clearClosed i nxt res (qps.map view.qp) =
      ((RdmaEgressQueue.clearClosed view i nxt res qps).1,
        (RdmaEgressQueue.clearClosed view i nxt res qps).2.map view.qp) := by
  induction qps generalizing i nxt res with
  | nil => rfl
  | cons p qps ih =>
      rw [List.map_cons, Nic.clearClosed, RdmaEgressQueue.clearClosed]
      by_cases hclosed : (view.qp p).closed = true
      · rw [if_pos hclosed, if_pos hclosed]
        exact ih _ _ _
      · rw [if_neg hclosed, if_neg hclosed]
        simp only [ih, List.map_cons]

theorem roundRobin (h : SameNic view q nic) (hsum : q.rrlast + q.qps.length < 2 ^ 32) :
    nic.roundRobin = q.visit.map fun x => (x.1, view.qp x.2) := by
  have hindex (k : Nat) (hk : k < q.qps.length) :
      u32 (k + 1 + q.rrlast) = k + 1 + q.rrlast := u32_of_lt (by omega)
  rw [Nic.roundRobin, visit, List.map_map, h.qps, h.rrlast, List.length_map]
  refine Eq.trans (List.filterMap_congr ?_) (congrFun List.filterMap_eq_map' _)
  intro k hk
  rw [List.mem_range] at hk
  have hlt : (k + 1 + q.rrlast) % q.qps.length < q.qps.length :=
    Nat.mod_lt _ (Nat.zero_lt_of_lt hk)
  simp [hindex k hk, hlt]

/-- The device selects the same queue pair and keeps the same group. -/
theorem getNextQindex (h : SameNic view q nic) (hsum : q.rrlast + q.qps.length < 2 ^ 32) :
    nic.getNextQindex cfg =
      ((q.getNextQindex cfg view).1, (q.getNextQindex cfg view).2.map view.qp) := by
  rw [Nic.getNextQindex, RdmaEgressQueue.getNextQindex, h.roundRobin hsum, h.scan, h.paused,
    h.nAcks, h.qps]
  by_cases hack : (!view.paused ackQIdx && decide (0 < view.nAcks)) = true
  · rw [if_pos hack, if_pos hack]
  · rw [if_neg hack, if_neg hack]
    cases RdmaEgressQueue.scan cfg view q.visit none with
    | mk res minFinishId =>
        cases minFinishId with
        | none => rfl
        | some first =>
            simp only [← List.map_drop, clearClosed, List.map_append, List.map_take]

end SameNic

/-- `GetNextQindex` designates the first eligible queue pair behind `m_rrlast`, takes nothing but
finished queue pairs out of the group, and serves a queue pair that stays eligible in its turn. -/
theorem getNextQindex_round_robin (cfg : NicConfig) :
    (∀ (view : SendView) (q : RdmaEgressQueue), q.Orderly view →
      q.Selects cfg view (q.getNextQindex cfg view).1 (q.getNextQindex cfg view).2) ∧
    ∀ (s t : NicSender) (es : List NicSenderEvent) (p : Nat), s.queue.qps.Nodup →
      p ∈ s.queue.qps → Run (NicSender.step cfg) (NicSender.KeepsReady cfg p) s es t →
      ∃ new, t.served = s.served ++ new ∧
        (s.queue.qps.length + NicSender.nAdded es ≤ new.length → p ∈ new) := by
  constructor
  · intro view q horderly
    exact RdmaEgressQueue.getNextQindex_selects horderly
  · intro s t es p hnodup hp hrun
    exact NicSender.mem_served hrun hnodup hp

namespace RdmaEgressQueue

def exampleConfig : NicConfig where
  hw := { mtu := 1000, ackInterval := 0, chunk := 4000, backto0 := false, nackInterval := 0 }
  varWin := false
  rateBound := true
  dataRate := 10 ^ 9
  interframeGap := 0
  headerSize := 48

def exampleQp (messages : List RdmaMessage) (closed : Bool) : NicQp where
  messages := messages
  sndNxt := 0
  sndUna := 0
  mscclFlowId := 0
  autoClose := false
  closed := closed
  pg := 0
  win := 0
  rate := 10 ^ 9
  maxRate := 10 ^ 9
  lastPktSize := 0
  nextAvail := 0

/-- The queue pairs 0 and 1 are closed, and 1 and 2 have a message. -/
def exampleView : SendView where
  now := 0
  paused := fun _ => false
  nAcks := 0
  qp := fun p => exampleQp (if p = 1 ∨ p = 2 then [⟨1000, 0, none, 0⟩] else []) (decide (p < 2))

theorem orderly_example (rrlast : Nat) (h : rrlast < 10) {qps : List Nat}
    (hlen : qps.length < 10) (hqps : 1 ∉ qps) : Orderly exampleView ⟨qps, rrlast⟩ := by
  constructor
  · intro p hp hclosed
    have hne : p ≠ 1 := fun heq => hqps (heq ▸ hp)
    have hlt : p < 2 := by simpa [exampleView, exampleQp] using hclosed
    have hzero : p = 0 := by omega
    rw [hzero]
    rfl
  · show rrlast + qps.length < 2 ^ 32
    omega

/-- A queue pair that is closed with a message is selected and taken out of the group at the same time:
the index points behind the group. And close to 2^32 the search leaves indices out. -/
theorem getNextQindex_closed_or_wrapped :
    (∃ view q, (RdmaEgressQueue.getNextQindex exampleConfig view q) = (.qp 1, [2]) ∧
      (RoundRobin.order q.qps q.rrlast).find? (view.ready exampleConfig) = some 1 ∧
      q.qps = [0, 1, 2] ∧ (view.qp 1).messages ≠ []) ∧
    ∃ view q, (RdmaEgressQueue.getNextQindex exampleConfig view q).1 = .nothing ∧
      q.qps = [3, 4, 2] ∧ view.ready exampleConfig 2 = true := by
  refine ⟨⟨exampleView, ⟨[0, 1, 2], 2⟩, ?_, ?_, rfl, ?_⟩,
    ⟨exampleView, ⟨[3, 4, 2], 2 ^ 32 - 2⟩, ?_, rfl, ?_⟩⟩
  · decide
  · decide
  · exact List.cons_ne_nil _ _
  · decide
  · decide

end RdmaEgressQueue

/-- A closed queue pair in front of the one that sends, and a last index behind the group. -/
theorem getNextQindex_round_robin_stale :
    RdmaEgressQueue.exampleView.ready RdmaEgressQueue.exampleConfig 2 = true ∧
    RdmaEgressQueue.Selects RdmaEgressQueue.exampleConfig RdmaEgressQueue.exampleView
      ⟨[0, 2, 3], 7⟩ (.qp 0) [2, 3] ∧
    ∃ t new, t.served = [] ++ new ∧ 2 ∈ new ∧
      Run (NicSender.step RdmaEgressQueue.exampleConfig)
        (NicSender.KeepsReady RdmaEgressQueue.exampleConfig 2)
        ⟨⟨[0, 2], 7⟩, RdmaEgressQueue.exampleView, []⟩ [.addQp 3, .dequeue, .dequeue, .dequeue]
        t := by
  have horderly {rrlast : Nat} (h : rrlast < 10) {qps : List Nat} (hlen : qps.length < 10)
      (hqps : 1 ∉ qps) := RdmaEgressQueue.orderly_example rrlast h hlen hqps
  have hready : RdmaEgressQueue.exampleView.ready RdmaEgressQueue.exampleConfig 2 = true := by decide
  have hselects := (getNextQindex_round_robin RdmaEgressQueue.exampleConfig).1
    RdmaEgressQueue.exampleView ⟨[0, 2, 3], 7⟩ (horderly (by decide) (by decide) (by decide))
  have hrun : Run (NicSender.step RdmaEgressQueue.exampleConfig)
      (NicSender.KeepsReady RdmaEgressQueue.exampleConfig 2)
      ⟨⟨[0, 2], 7⟩, RdmaEgressQueue.exampleView, []⟩ [.addQp 3, .dequeue, .dequeue, .dequeue]
      ⟨⟨[2, 3], 0⟩, RdmaEgressQueue.exampleView, [2, 2, 2]⟩ := by
    refine .cons (fun h => nomatch h) rfl (.cons (fun _ => ⟨?_, hready⟩) rfl
      (.cons (fun _ => ⟨?_, hready⟩) rfl (.cons (fun _ => ⟨?_, hready⟩) rfl (.nil _))))
    · exact horderly (by decide) (by decide) (by decide)
    · exact horderly (by decide) (by decide) (by decide)
    · exact horderly (by decide) (by decide) (by decide)
  obtain ⟨new, hnew, hserved⟩ := (getNextQindex_round_robin RdmaEgressQueue.exampleConfig).2
    _ _ _ 2 (by decide) (by decide) hrun
  refine ⟨hready, hselects, _, new, hnew, hserved ?_, hrun⟩
  rw [← show [2, 2, 2] = new from hnew]
  decide

end CollectiveSim.Rdma
