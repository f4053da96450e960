import CollectiveSim.Msccl.Transport

/-!
# A run against its history

At any time the history, executed one transfer after the other, gives the contents of the buffers except
where a receive is being filled, and the messages whose bytes are under way.
-/

namespace CollectiveSim.Msccl

open Framework Interpreter

/-- The buffers and messages after the transfers of a history. -/
def settled (cfg : AppConfig) (algos : Nat → Option MscclAlgorithm) (memory : Nat → Memory)
    (order : List Op) : SeqState :=
  order.foldl (SeqState.exec cfg algos) (.initial memory)

/-- The state of a run and its history. -/
structure Simulates (cfg : AppConfig) (root : XmlNode) (algos : Nat → Option MscclAlgorithm)
    (counts : ConnId → List Nat) (start : Nat → Memory) (s : Collective) (order : List Op) :
    Prop where
  tracked : Tracked algos s.interp order
  respects : Extends (Op.Before cfg root algos) order
  memory : ∀ gpu buf x, ¬ s.Filling cfg algos gpu buf x →
    s.memory gpu buf x = (settled cfg algos start order).memory gpu buf x
  sized : ∀ c, (settled cfg algos start order).Sized cfg counts c
    (order.countP (Op.on algos .sending c))
  linked : ∀ c, Linked cfg algos s counts (settled cfg algos start order) order c

section

variable {cfg : AppConfig} {nRanks : Nat} {root : XmlNode} {algos : Nat → Option MscclAlgorithm}
  {counts : ConnId → List Nat} {start : Nat → Memory} {algo : MscclAlgorithm}
  {s s' : Collective} {order : List Op} {u : Op} {tran : MscclTransfer} {P : Op → Prop}

@[simp] theorem settled_append (order : List Op) (u : Op) :
    settled cfg algos start (order ++ [u]) =
      (settled cfg algos start order).exec cfg algos u := by
  simp [settled]

/-! ### Counts of a connection -/

theorem Side.counts_getElem? {side : Side} {tb : MscclThreadBlock} {sid : Nat}
    (htran : tb.transfers[sid]? = some tran) (hhas : side.Has tran.type = true) :
    (side.counts tb)[side.index tb sid]? = some tran.count := by
  obtain ⟨hlt, hget⟩ := List.getElem?_eq_some_iff.mp htran
  have hsplit : tb.transfers = tb.transfers.take sid ++ tran :: tb.transfers.drop (sid + 1) := by
    rw [← hget, ← List.drop_eq_getElem_cons hlt, List.take_append_drop]
  have hfilter : (tb.transfers.filter fun tran => side.Has tran.type) =
      ((tb.transfers.take sid).filter fun tran => side.Has tran.type) ++
        tran :: ((tb.transfers.drop (sid + 1)).filter fun tran => side.Has tran.type) := by
    conv_lhs => rw [hsplit]
    rw [List.filter_append, List.filter_cons, if_pos hhas]
  rw [Side.counts, hfilter, List.map_append, List.getElem?_append_right]
  · rw [List.length_map, Side.index, List.countP_eq_length_filter, Nat.sub_self]
    rfl
  · rw [List.length_map, Side.index, List.countP_eq_length_filter]

theorem Paired.msgSize_eq (h : Paired algos counts) {side : Side} {slot : Slot}
    (htran : u.transfer algos = some tran) (hslot : u.slot algos side tran = some slot) :
    msgSize cfg counts slot.conn slot.index = cfg.bytes tran.count := by
  obtain ⟨algo, halgo, -, htb, hget⟩ := Op.transfer_eq_some.mp htran
  have hcounts := h.counts _ _ _ _ _ (u.uses halgo htran hslot)
  obtain ⟨⟨hhas, -⟩, rfl⟩ := Op.slot_eq_some.mp hslot
  rw [msgSize, ← hcounts, htb, Side.counts_getElem? hget hhas]
  rfl

theorem Tracked.mem_iff_index_lt {interp : Nat → Interpreter} (h : Tracked algos interp order)
    {side : Side} {slot : Slot} (htran : u.transfer algos = some tran)
    (hslot : u.slot algos side tran = some slot) :
    u ∈ order ↔ slot.index < order.countP (Op.on algos side slot.conn) := by
  obtain ⟨algo, halgo, -, htb, hget⟩ := Op.transfer_eq_some.mp htran
  have huses := u.uses halgo htran hslot
  rw [h.count _ _ _ _ _ huses, h.mem]
  obtain ⟨⟨hhas, -⟩, rfl⟩ := Op.slot_eq_some.mp hslot
  rw [htb]
  constructor
  · rintro ⟨algo', tran', halgo', -, hlt⟩
    obtain rfl := Option.some_inj.mp (halgo.symm.trans halgo')
    exact Side.index_lt hget hhas hlt
  · intro hlt
    refine ⟨algo, tran, halgo, htran, ?_⟩
    by_contra hle
    have hmono : side.index (algo.mscclTBs u.bid) ((interp u.gpu).covered algo u.bid) ≤
        side.index (algo.mscclTBs u.bid) u.sid :=
      (List.take_sublist_take_left (Nat.not_lt.mp hle)).countP_le
    exact absurd hlt (Nat.not_lt.mpr hmono)

theorem Tracked.index_of_next {interp : Nat → Interpreter} (h : Tracked algos interp order)
    {side : Side} {slot : Slot} (halgo : algos u.gpu = some algo)
    (htran : u.transfer algos = some tran) (hslot : u.slot algos side tran = some slot)
    (hnext : (interp u.gpu).covered algo u.bid = u.sid) :
    order.countP (Op.on algos side slot.conn) = slot.index := by
  have huses := u.uses halgo htran hslot
  rw [h.count _ _ _ _ _ huses, hnext]
  obtain ⟨-, rfl⟩ := Op.slot_eq_some.mp hslot
  rw [Op.tb_eq halgo]

/-! ### What running transfers have to themselves -/

theorem Tracked.disjoint (h : Tracked algos s.interp order)
    (hprog : Program cfg nRanks root algos counts) {a b : Op} {tran tran' : MscclTransfer}
    (ha : s.Runs a) (hb : s.Runs b) (hgpu : a.gpu = b.gpu) (hne : a ≠ b)
    (htran : a.transfer algos = some tran) (htran' : b.transfer algos = some tran')
    {buf : BufferType} {x : Nat} (hwrites : tran.Writes cfg buf x) : ¬ tran'.Touches cfg buf x := by
  obtain ⟨algo, halgo, -, -, -⟩ := Op.transfer_eq_some.mp htran
  have hb' : (s.interp a.gpu).Runs b := by
    rw [hgpu]
    exact hb
  exact hprog.not_touched_of_runs halgo hgpu (h.reached _ _ halgo) ha hb' hne htran htran' hwrites

/-- A step that writes at most what a running transfer writes. -/
theorem Tracked.keeps (h : Tracked algos s.interp order)
    (hprog : Program cfg nRanks root algos counts) (hu : s.Runs u)
    (htran : u.transfer algos = some tran) (hruns : ∀ op, op ≠ u → s.Runs op → s'.Runs op)
    (hframe : ∀ gpu buf x, ¬ (gpu = u.gpu ∧ tran.Writes cfg buf x) →
      s'.memory gpu buf x = s.memory gpu buf x) : Keeps cfg algos (fun op => op = u) s s' where
  runs := hruns
  memory op tran' buf x hne hop htran' htouches := by
    apply hframe
    rintro ⟨hgpu, hwrites⟩
    exact h.disjoint hprog hu hop hgpu.symm (Ne.symm hne) htran htran' hwrites htouches

/-- A running transfer other than a copy from the network touches settled bytes. -/
theorem Simulates.eq_of_touches (h : Simulates cfg root algos counts start s order)
    (hprog : Program cfg nRanks root algos counts) (hu : s.Runs u)
    (htran : u.transfer algos = some tran) (htype : tran.type ≠ .recv) {buf : BufferType} {x : Nat}
    (htouches : tran.Touches cfg buf x) :
    s.memory u.gpu buf x = (settled cfg algos start order).memory u.gpu buf x := by
  apply h.memory
  rintro ⟨op, tran', hgpu, hop, htran', htype', hwrites⟩
  have hne : op ≠ u := by
    rintro rfl
    obtain rfl := Option.some_inj.mp (htran.symm.trans htran')
    exact htype htype'
  exact h.tracked.disjoint hprog hop hu hgpu hne htran' htran hwrites htouches

/-- A message is sent before it is received. -/
theorem Simulates.sent_of_received (h : Simulates cfg root algos counts start s order)
    (hprog : Program cfg nRanks root algos counts) {a b : Op} {tran tran' : MscclTransfer}
    {slot : Slot} (ha : a.transfer algos = some tran) (hb : b.transfer algos = some tran')
    (hsend : a.slot algos .sending tran = some slot) (htake : b.takes cfg algos tran' = some slot)
    (hmem : b ∈ order) : a ∈ order := by
  obtain ⟨hpos, hslot⟩ := Op.takes_eq_some.mp htake
  have hindex := (h.tracked.mem_iff_index_lt hb hslot).mp hmem
  rw [← hprog.paired.msgSize_eq hb hslot] at hpos
  obtain ⟨taken, held, unsent, -, -, htaken, hstream⟩ := h.linked slot.conn
  rw [h.tracked.mem_iff_index_lt ha hsend]
  exact (h.sized slot.conn).lt_of_taken hstream (Nat.le_of_eq htaken.symm) hindex hpos

/-! ### Steps that settle nothing, and steps that settle one transfer -/

theorem Simulates.within (h : Simulates cfg root algos counts start s order)
    (htracked : Tracked algos s'.interp order) (hkeeps : Keeps cfg algos P s s')
    (hmemory : ∀ gpu buf x, ¬ s'.Filling cfg algos gpu buf x →
      ¬ s.Filling cfg algos gpu buf x ∧ s'.memory gpu buf x = s.memory gpu buf x)
    (hlinked : ∀ c, ((∀ op, P op → ∀ side, op.on algos side c = false) ∧
      s'.sending c = s.sending c ∧ s'.receiving c = s.receiving c) ∨
      Linked cfg algos s' counts (settled cfg algos start order) order c) :
    Simulates cfg root algos counts start s' order where
  tracked := htracked
  respects := h.respects
  memory gpu buf x hx := by
    obtain ⟨hfill, heq⟩ := hmemory gpu buf x hx
    rw [heq]
    exact h.memory gpu buf x hfill
  sized := h.sized
  linked c := by
    rcases hlinked c with ⟨hP, hsending, hreceiving⟩ | hdone
    · exact (h.linked c).keep hkeeps hP hsending hreceiving (fun _ => rfl) (fun _ => rfl)
    · exact hdone

theorem SeqState.exec_message_of_not_on (T : SeqState) {c : ConnId}
    (h : u.on algos .sending c = false) (k : Nat) :
    (T.exec cfg algos u).message ⟨c, k⟩ = T.message ⟨c, k⟩ := by
  rw [exec]
  cases htran : u.transfer algos with
  | none => rfl
  | some tran =>
      simp only
      rw [transfer_message, if_neg]
      intro hslot
      rw [Bool.eq_false_iff] at h
      exact h (Op.on_eq_true.mpr ⟨tran, htran, _, hslot, rfl⟩)

theorem countP_append_of_not_on {side : Side} {c : ConnId} (h : u.on algos side c = false) :
    (order ++ [u]).countP (Op.on algos side c) = order.countP (Op.on algos side c) := by
  rw [List.countP_append, List.countP_singleton, if_neg (by rw [h]; decide), Nat.add_zero]

theorem countP_append_of_on {side : Side} {c : ConnId} (h : u.on algos side c = true) :
    (order ++ [u]).countP (Op.on algos side c) = order.countP (Op.on algos side c) + 1 := by
  rw [List.countP_append, List.countP_singleton, if_pos h]

theorem Simulates.settle (h : Simulates cfg root algos counts start s order)
    (hprog : Program cfg nRanks root algos counts) (htran : u.transfer algos = some tran)
    (htracked : Tracked algos s'.interp (order ++ [u]))
    (hkeeps : Keeps cfg algos (fun op => op = u) s s')
    (hmemory : ∀ gpu buf x, ¬ s'.Filling cfg algos gpu buf x →
      s'.memory gpu buf x = (settled cfg algos start (order ++ [u])).memory gpu buf x)
    (hconn : ∀ c, ((∀ side, u.on algos side c = false) ∧
      s'.sending c = s.sending c ∧ s'.receiving c = s.receiving c) ∨
      ((settled cfg algos start (order ++ [u])).Sized cfg counts c
          ((order ++ [u]).countP (Op.on algos .sending c)) ∧
        Linked cfg algos s' counts (settled cfg algos start (order ++ [u])) (order ++ [u]) c)) :
    Simulates cfg root algos counts start s' (order ++ [u]) where
  tracked := htracked
  respects := by
    apply List.pairwise_append.mpr
    refine ⟨h.respects, List.pairwise_singleton _ u, ?_⟩
    intro op hop v hv hbefore
    rw [List.mem_singleton.mp hv] at hbefore
    have hmem := h.tracked.mem_of_before hprog
      (fun a b tran tran' slot ha hb hsend htake => h.sent_of_received hprog ha hb hsend htake)
      (by rw [htran]; rfl) hbefore hop
    have hdisj := (List.nodup_append'.mp htracked.nodup).2.2
    exact hdisj hmem (List.mem_singleton_self u)
  memory := hmemory
  sized c := by
    rcases hconn c with ⟨hoff, -, -⟩ | ⟨hsized, -⟩
    · intro k hk
      rw [countP_append_of_not_on (hoff .sending)] at hk
      rw [settled_append, SeqState.exec_message_of_not_on _ (hoff .sending)]
      exact h.sized c k hk
    · exact hsized
  linked c := by
    rcases hconn c with ⟨hoff, hsending, hreceiving⟩ | ⟨-, hdone⟩
    · apply (h.linked c).keep hkeeps _ hsending hreceiving
      · intro side
        exact countP_append_of_not_on (hoff side)
      · intro k
        rw [settled_append]
        exact SeqState.exec_message_of_not_on _ (hoff .sending) k
      · rintro op rfl
        exact hoff
    · exact hdone

end

end CollectiveSim.Msccl
