import CollectiveSim.Msccl.ByteCount
import CollectiveSim.Rdma.MessageQueue

/-!
# Pending sends of the socket path

`Send` cuts a transfer into fragments, which leave one device one after another. Each fragment that is
sent counts against the pending transfers of its socket, in their order.
-/

namespace CollectiveSim.Msccl

open Framework

/-- A transfer in `m_pendingSends`: its thread block and step, and the bytes still to be sent. -/
structure PendingSend where
  bid : Nat
  sid : Nat
  pendingBytes : Nat
  deriving DecidableEq

namespace PendingSend

def step (p : PendingSend) : Nat × Nat := (p.bid, p.sid)

/-- The loop of `SendCallback`: the transfers that are complete, and those still pending. -/
def sendCallback : Nat → List PendingSend → List PendingSend × List PendingSend
  | _, [] => ([], [])
  | sendSize, cur :: rest =>
      if sendSize = 0 then ([], cur :: rest)
      else
        let take := min sendSize cur.pendingBytes
        if cur.pendingBytes - take = 0 then
          let (done, left) := sendCallback (sendSize - take) rest
          (cur :: done, left)
        else ([], { cur with pendingBytes := cur.pendingBytes - take } :: rest)

section

variable (cur : PendingSend) (rest : List PendingSend)

theorem sendCallback_zero (ps : List PendingSend) : sendCallback 0 ps = ([], ps) := by
  cases ps <;> rfl

theorem sendCallback_of_le {n : Nat} (hn : 0 < n) (h : cur.pendingBytes ≤ n) :
    sendCallback n (cur :: rest) =
      (cur :: (sendCallback (n - cur.pendingBytes) rest).1,
        (sendCallback (n - cur.pendingBytes) rest).2) := by
  rw [sendCallback, if_neg (Nat.ne_of_gt hn), Nat.min_eq_right h]
  exact if_pos (Nat.sub_self _)

theorem sendCallback_of_lt {n : Nat} (hn : 0 < n) (h : n < cur.pendingBytes) :
    sendCallback n (cur :: rest) =
      ([], { cur with pendingBytes := cur.pendingBytes - n } :: rest) := by
  rw [sendCallback, if_neg (Nat.ne_of_gt hn), Nat.min_eq_left (Nat.le_of_lt h)]
  exact if_neg (by omega)

end

/-- The bytes still to be sent. -/
def bytes (ps : List PendingSend) : Nat := (ps.map pendingBytes).sum

@[simp] theorem bytes_nil : bytes [] = 0 := rfl

@[simp] theorem bytes_cons (cur : PendingSend) (rest : List PendingSend) :
    bytes (cur :: rest) = cur.pendingBytes + bytes rest := rfl

/-- The last transfer has bytes left. -/
def LastHasBytes (ps : List PendingSend) : Prop := ∀ p ∈ ps.getLast?, p.pendingBytes ≠ 0

theorem LastHasBytes.bytes_pos {ps : List PendingSend} (h : LastHasBytes ps) (hne : ps ≠ []) :
    0 < bytes ps := by
  have hlast := h (ps.getLast hne) (List.getLast?_eq_some_getLast hne)
  have hle : (ps.getLast hne).pendingBytes ≤ bytes ps :=
    List.le_sum_of_mem (List.mem_map_of_mem (List.getLast_mem hne))
  omega

theorem bytes_sendCallback (n : Nat) (ps : List PendingSend) :
    bytes (sendCallback n ps).2 = bytes ps - n := by
  induction ps generalizing n with
  | nil => simp [sendCallback]
  | cons cur rest ih =>
      by_cases hn : n = 0
      · rw [hn, sendCallback_zero, Nat.sub_zero]
      · by_cases hle : cur.pendingBytes ≤ n
        · rw [sendCallback_of_le cur rest (Nat.pos_of_ne_zero hn) hle, ih, bytes_cons]
          omega
        · rw [sendCallback_of_lt cur rest (Nat.pos_of_ne_zero hn) (Nat.lt_of_not_le hle), bytes_cons,
            bytes_cons]
          dsimp only
          omega

theorem sendCallback_steps (n : Nat) (ps : List PendingSend) :
    (sendCallback n ps).1.map step ++ (sendCallback n ps).2.map step = ps.map step := by
  induction ps generalizing n with
  | nil => rfl
  | cons cur rest ih =>
      by_cases hn : n = 0
      · rw [hn, sendCallback_zero]
        rfl
      · by_cases hle : cur.pendingBytes ≤ n
        · rw [sendCallback_of_le cur rest (Nat.pos_of_ne_zero hn) hle, List.map_cons,
            List.cons_append, ih, List.map_cons]
        · rw [sendCallback_of_lt cur rest (Nat.pos_of_ne_zero hn) (Nat.lt_of_not_le hle)]
          rfl

/-- A fragment completes all transfers if it has more bytes than they, or just as many and the last
transfer has some of them. -/
theorem sendCallback_eq_nil_iff {n : Nat} (hn : 0 < n) (ps : List PendingSend) :
    (sendCallback n ps).2 = [] ↔ bytes ps < n ∨ bytes ps = n ∧ LastHasBytes ps := by
  induction ps generalizing n with
  | nil => simp [sendCallback, hn]
  | cons cur rest ih =>
      rw [bytes_cons]
      by_cases hle : cur.pendingBytes ≤ n
      · rw [sendCallback_of_le cur rest hn hle]
        cases rest with
        | nil =>
            have hlast : LastHasBytes [cur] ↔ cur.pendingBytes ≠ 0 := by simp [LastHasBytes]
            rw [hlast, bytes_nil]
            refine iff_of_true rfl ?_
            omega
        | cons next rest =>
            have hlast : LastHasBytes (cur :: next :: rest) ↔ LastHasBytes (next :: rest) := by
              simp [LastHasBytes, List.getLast?_cons_cons]
            rw [hlast]
            by_cases hleft : n - cur.pendingBytes = 0
            · rw [hleft, sendCallback_zero]
              refine iff_of_false (List.cons_ne_nil _ _) ?_
              rintro (hlt | ⟨heq, hbytes⟩)
              · omega
              · have hpos := hbytes.bytes_pos (List.cons_ne_nil _ _)
                omega
            · rw [ih (by omega)]
              exact or_congr (by omega) (and_congr_left fun _ => by omega)
      · rw [sendCallback_of_lt cur rest hn (Nat.lt_of_not_le hle)]
        refine iff_of_false (List.cons_ne_nil _ _) ?_
        omega

end PendingSend

/-- What a device and its channel say about fragments. -/
structure SendConfig where
  mtu : UInt16
  dataType : ElemType

/-- `MscclHeader::GetSerializedSize`. -/
def mscclHeaderSize : Nat := 22

/-- `MSCCL_L2_OVERHEAD_BYTES`. -/
def l2OverheadBytes : Nat := 14

/-- Whole elements in one fragment. -/
def SendConfig.maxPayload (cfg : SendConfig) : Nat :=
  let maxPayload := sub32 (sub32 cfg.mtu.toNat mscclHeaderSize) l2OverheadBytes
  maxPayload - maxPayload % cfg.dataType.getSizeBytes

/-- The loop of `Send` over the bytes left, at most `fuel` times. -/
def fragPayloads (maxPayload : Nat) : Nat → Nat → List Nat
  | 0, _ => []
  | fuel + 1, left =>
      if left = 0 then []
      else min maxPayload left :: fragPayloads maxPayload fuel (left - min maxPayload left)

/-- One device with the sockets that send through it, which are numbers here, and for each of these the
steps whose transfers were requested and completed. -/
structure SendDevice where
  pendingSends : Nat → List PendingSend
  /-- the socket and the size of each fragment -/
  pendingFragments : List (Nat × Nat)
  sendInFlight : Bool
  requested : Nat → List (Nat × Nat)
  completed : Nat → List (Nat × Nat)

namespace SendDevice

inductive Event
  | send (sock bid sid : Nat) (totalBytes : UInt32)
  /-- the timer of the device -/
  | sendNextFragment

def initial : SendDevice where
  pendingSends := fun _ => []
  pendingFragments := []
  sendInFlight := false
  requested := fun _ => []
  completed := fun _ => []

/-- `SendNextFragment`; a fragment beyond the MTU is not sent and ends the program. -/
def sendNextFragment (cfg : SendConfig) (s : SendDevice) : Option SendDevice :=
  match s.pendingFragments with
  | [] => some { s with sendInFlight := false }
  | (sock, size) :: rest =>
      if size ≤ cfg.mtu.toNat then
        let (done, left) := PendingSend.sendCallback size (s.pendingSends sock)
        some {
          pendingSends := Function.update s.pendingSends sock left
          pendingFragments := rest
          sendInFlight := !rest.isEmpty
          requested := s.requested
          completed := Function.update s.completed sock
            (s.completed sock ++ done.map PendingSend.step) }
      else none

/-- The transfer and its fragments, of these sizes, are queued. -/
def enqueue (sock bid sid : Nat) (sizes : List Nat) (s : SendDevice) : SendDevice :=
  { s with
    pendingSends := Function.update s.pendingSends sock
      (s.pendingSends sock ++ [⟨bid, sid, u32 sizes.sum⟩])
    pendingFragments := s.pendingFragments ++ sizes.map fun size => (sock, size)
    requested := Function.update s.requested sock (s.requested sock ++ [(bid, sid)]) }

/-- `Send` on the socket path. Without room for an element its loop does not end. -/
def send (cfg : SendConfig) (sock bid sid totalBytes : Nat) (s : SendDevice) : Option SendDevice :=
  if cfg.maxPayload = 0 ∧ totalBytes ≠ 0 then none
  else
    let sizes := (fragPayloads cfg.maxPayload totalBytes totalBytes).map (· + mscclHeaderSize)
    let s' := s.enqueue sock bid sid sizes
    if s.sendInFlight then some s' else { s' with sendInFlight := true }.sendNextFragment cfg

def step (cfg : SendConfig) (s : SendDevice) : Event → Option SendDevice
  | .send sock bid sid totalBytes => s.send cfg sock bid sid totalBytes.toNat
  | .sendNextFragment => if s.sendInFlight then s.sendNextFragment cfg else none

/-- The sizes of the fragments of one socket. -/
def sizesOf (sock : Nat) (frags : List (Nat × Nat)) : List Nat :=
  (frags.filter fun f => decide (f.1 = sock)).map Prod.snd

section

variable (sock : Nat)

@[simp] theorem sizesOf_nil : sizesOf sock [] = [] := rfl

@[simp] theorem sizesOf_cons_self (size : Nat) (rest : List (Nat × Nat)) :
    sizesOf sock ((sock, size) :: rest) = size :: sizesOf sock rest := by
  simp [sizesOf]

theorem sizesOf_cons_of_ne {sock' : Nat} (h : sock' ≠ sock) (size : Nat)
    (rest : List (Nat × Nat)) : sizesOf sock ((sock', size) :: rest) = sizesOf sock rest := by
  simp [sizesOf, h]

@[simp] theorem sizesOf_append (frags frags' : List (Nat × Nat)) :
    sizesOf sock (frags ++ frags') = sizesOf sock frags ++ sizesOf sock frags' := by
  simp [sizesOf]

@[simp] theorem sizesOf_same (sizes : List Nat) :
    sizesOf sock (sizes.map fun size => (sock, size)) = sizes := by
  induction sizes with
  | nil => rfl
  | cons size sizes ih => rw [List.map_cons, sizesOf_cons_self, ih]

theorem sizesOf_other {sock' : Nat} (h : sock' ≠ sock) (sizes : List Nat) :
    sizesOf sock (sizes.map fun size => (sock', size)) = [] := by
  induction sizes with
  | nil => rfl
  | cons size sizes ih => rw [List.map_cons, sizesOf_cons_of_ne sock h, ih]

end

/-- The fragments of a socket that are still to be sent. -/
def fragmentsOf (s : SendDevice) (sock : Nat) : List Nat := sizesOf sock s.pendingFragments

/-- When nothing of a socket is left to be sent, none of its transfers is pending. -/
def Drained (s : SendDevice) : Prop :=
  ∀ sock, s.fragmentsOf sock = [] →
    s.pendingSends sock = [] ∧ s.completed sock = s.requested sock

/-- The fragments cover the pending bytes, and every transfer requested is pending or complete. -/
structure Covered (s : SendDevice) : Prop where
  bytes : ∀ sock, PendingSend.bytes (s.pendingSends sock) ≤ (s.fragmentsOf sock).sum
  pos : ∀ f ∈ s.pendingFragments, 0 < f.2
  steps : ∀ sock, s.completed sock ++ (s.pendingSends sock).map PendingSend.step = s.requested sock

/-- When the last fragment of a socket leaves, its last pending transfer has bytes left. -/
def LastFragmentClears (s : SendDevice) : Prop :=
  ∀ sock size rest, s.pendingFragments = (sock, size) :: rest → sizesOf sock rest = [] →
    PendingSend.bytes (s.pendingSends sock) < size ∨
      PendingSend.LastHasBytes (s.pendingSends sock)

variable {cfg : SendConfig} {s t : SendDevice}

theorem Covered.completed_eq (h : Covered s) {sock : Nat} (hempty : s.pendingSends sock = []) :
    s.completed sock = s.requested sock := by
  rw [← h.steps sock, hempty, List.map_nil, List.append_nil]

theorem sendNextFragment_nil (hfrags : s.pendingFragments = []) :
    s.sendNextFragment cfg = some { s with sendInFlight := false } := by
  cases s
  cases hfrags
  rfl

/-- What sending the first fragment changes. -/
structure Sent (s : SendDevice) (sock size : Nat) (rest : List (Nat × Nat)) (t : SendDevice) :
    Prop where
  pendingSends : t.pendingSends = Function.update s.pendingSends sock
    (PendingSend.sendCallback size (s.pendingSends sock)).2
  pendingFragments : t.pendingFragments = rest
  sendInFlight : t.sendInFlight = !rest.isEmpty
  requested : t.requested = s.requested
  completed : t.completed = Function.update s.completed sock (s.completed sock ++
    (PendingSend.sendCallback size (s.pendingSends sock)).1.map PendingSend.step)

theorem sent_of_next {sock size : Nat} {rest : List (Nat × Nat)}
    (hfrags : s.pendingFragments = (sock, size) :: rest) (hnext : s.sendNextFragment cfg = some t) :
    size ≤ cfg.mtu.toNat ∧ Sent s sock size rest t := by
  simp only [sendNextFragment, hfrags, Option.ite_none_right_eq_some, Option.some.injEq] at hnext
  obtain ⟨hle, rfl⟩ := hnext
  exact ⟨hle, rfl, rfl, rfl, rfl, rfl⟩

theorem Covered.idle (h : Covered s) : Covered { s with sendInFlight := false } :=
  ⟨h.bytes, h.pos, h.steps⟩

theorem Covered.next (h : Covered s) (hnext : s.sendNextFragment cfg = some t) : Covered t := by
  cases hfrags : s.pendingFragments with
  | nil =>
      rw [sendNextFragment_nil hfrags, Option.some_inj] at hnext
      rw [← hnext]
      exact h.idle
  | cons f rest =>
      obtain ⟨sock, size⟩ := f
      obtain ⟨-, ht⟩ := sent_of_next hfrags hnext
      refine ⟨fun sock' => ?_, fun f hf => ?_, fun sock' => ?_⟩
      · have hbytes := h.bytes sock'
        rw [fragmentsOf, hfrags] at hbytes
        rw [fragmentsOf, ht.pendingFragments, ht.pendingSends]
        by_cases hsock : sock' = sock
        · rw [hsock, sizesOf_cons_self, List.sum_cons] at hbytes
          rw [hsock, Function.update_self, PendingSend.bytes_sendCallback]
          omega
        · rw [sizesOf_cons_of_ne _ (Ne.symm hsock)] at hbytes
          rwa [Function.update_of_ne hsock]
      · rw [ht.pendingFragments] at hf
        apply h.pos f
        rw [hfrags]
        exact List.mem_cons_of_mem _ hf
      · rw [ht.completed, ht.pendingSends, ht.requested]
        by_cases hsock : sock' = sock
        · rw [hsock, Function.update_self, Function.update_self, List.append_assoc,
            PendingSend.sendCallback_steps, h.steps sock]
        · rw [Function.update_of_ne hsock, Function.update_of_ne hsock]
          exact h.steps sock'

theorem drained_next_iff (h : Covered s) (hdrained : Drained s)
    (hnext : s.sendNextFragment cfg = some t) : Drained t ↔ LastFragmentClears s := by
  have hcovered := h.next hnext
  cases hfrags : s.pendingFragments with
  | nil =>
      rw [sendNextFragment_nil hfrags, Option.some_inj] at hnext
      rw [← hnext]
      refine iff_of_true hdrained fun sock size rest heq => ?_
      rw [hfrags] at heq
      cases heq
  | cons f rest =>
      obtain ⟨sock, size⟩ := f
      obtain ⟨-, ht⟩ := sent_of_next hfrags hnext
      have hpos : 0 < size := h.pos (sock, size) (by rw [hfrags]; exact List.mem_cons_self)
      have hcleared := PendingSend.sendCallback_eq_nil_iff hpos (s.pendingSends sock)
      constructor
      · intro hd sock' size' rest' heq hlast
        rw [hfrags, List.cons.injEq, Prod.mk.injEq] at heq
        obtain ⟨⟨rfl, rfl⟩, rfl⟩ := heq
        have hempty := (hd sock (by rw [fragmentsOf, ht.pendingFragments, hlast])).1
        rw [ht.pendingSends, Function.update_self] at hempty
        rcases hcleared.mp hempty with hlt | ⟨-, hbytes⟩
        · exact Or.inl hlt
        · exact Or.inr hbytes
      · intro hok sock' hlast
        rw [fragmentsOf, ht.pendingFragments] at hlast
        have hempty : t.pendingSends sock' = [] := by
          rw [ht.pendingSends]
          by_cases hsock : sock' = sock
          · subst hsock
            have hbytes := h.bytes sock'
            rw [fragmentsOf, hfrags, sizesOf_cons_self, hlast, List.sum_singleton] at hbytes
            rw [Function.update_self]
            apply hcleared.mpr
            rcases hok sock' size rest hfrags hlast with hlt | hlastBytes
            · exact Or.inl hlt
            · rcases Nat.lt_or_eq_of_le hbytes with hlt | heq
              · exact Or.inl hlt
              · exact Or.inr ⟨heq, hlastBytes⟩
          · rw [Function.update_of_ne hsock]
            apply (hdrained sock' _).1
            rw [fragmentsOf, hfrags, sizesOf_cons_of_ne _ (Ne.symm hsock), hlast]
        exact ⟨hempty, hcovered.completed_eq hempty⟩

/-! ### Runs -/

theorem Covered.enqueue (h : Covered s) (sock bid sid : Nat) {sizes : List Nat}
    (hpos : ∀ size ∈ sizes, 0 < size) : Covered (s.enqueue sock bid sid sizes) := by
  refine ⟨fun sock' => ?_, fun f hf => ?_, fun sock' => ?_⟩
  · have hbytes := h.bytes sock'
    rw [fragmentsOf] at hbytes ⊢
    simp only [SendDevice.enqueue, sizesOf_append, List.sum_append]
    by_cases hsock : sock' = sock
    · have hle := u32_le sizes.sum
      rw [hsock] at hbytes ⊢
      rw [Function.update_self, sizesOf_same, PendingSend.bytes, List.map_append, List.sum_append,
        List.map_singleton, List.sum_singleton, ← PendingSend.bytes]
      dsimp only
      omega
    · rw [Function.update_of_ne hsock, sizesOf_other _ (Ne.symm hsock), List.sum_nil, Nat.add_zero]
      exact hbytes
  · simp only [SendDevice.enqueue, List.mem_append, List.mem_map] at hf
    rcases hf with hf | ⟨size, hsize, rfl⟩
    · exact h.pos f hf
    · exact hpos size hsize
  · simp only [SendDevice.enqueue]
    by_cases hsock : sock' = sock
    · rw [hsock, Function.update_self, Function.update_self, List.map_append, ← List.append_assoc,
        h.steps sock]
      rfl
    · rw [Function.update_of_ne hsock, Function.update_of_ne hsock]
      exact h.steps sock'

theorem drained_enqueue_iff (hdrained : Drained s) (sock bid sid : Nat) (sizes : List Nat) :
    Drained (s.enqueue sock bid sid sizes) ↔ (sizes = [] → s.fragmentsOf sock ≠ []) := by
  have hfrags (sock' : Nat) : (s.enqueue sock bid sid sizes).fragmentsOf sock' =
      s.fragmentsOf sock' ++ if sock' = sock then sizes else [] := by
    simp only [fragmentsOf, enqueue, sizesOf_append]
    by_cases hsock : sock' = sock
    · rw [if_pos hsock, hsock, sizesOf_same]
    · rw [if_neg hsock, sizesOf_other _ (Ne.symm hsock)]
  constructor
  · intro hd hnone hempty
    have hpending := (hd sock (by rw [hfrags, if_pos rfl, hnone, hempty, List.append_nil])).1
    simp [enqueue] at hpending
  · intro hok sock' hempty
    rw [hfrags, List.append_eq_nil_iff] at hempty
    by_cases hsock : sock' = sock
    · rw [if_pos hsock, hsock] at hempty
      exact absurd hempty.1 (hok hempty.2)
    · simp only [enqueue, Function.update_of_ne hsock]
      exact hdrained sock' hempty.1

/-- The device is idle only without fragments. -/
def Paced (s : SendDevice) : Prop := s.sendInFlight = false → s.pendingFragments = []

theorem paced_next (hnext : s.sendNextFragment cfg = some t) : Paced t := by
  cases hfrags : s.pendingFragments with
  | nil =>
      rw [sendNextFragment_nil hfrags, Option.some_inj] at hnext
      rw [← hnext]
      exact fun _ => hfrags
  | cons f rest =>
      obtain ⟨-, ht⟩ := sent_of_next hfrags hnext
      intro hidle
      rw [ht.sendInFlight, Bool.not_eq_false'] at hidle
      rw [ht.pendingFragments]
      exact List.isEmpty_iff.mp hidle

theorem fragPayloads_eq_nil_iff (maxPayload n : Nat) : fragPayloads maxPayload n n = [] ↔ n = 0 := by
  cases n with
  | zero => simp [fragPayloads]
  | succ n => simp [fragPayloads]

theorem lastFragmentClears_enqueue {sock bid sid : Nat} {sizes : List Nat}
    (hidle : s.pendingFragments = []) (hpending : s.pendingSends sock = [])
    (hsizes : ∀ size ∈ sizes, 0 < size)
    (hnext : ({ s.enqueue sock bid sid sizes with sendInFlight := true }).sendNextFragment cfg =
      some t) :
    LastFragmentClears { s.enqueue sock bid sid sizes with sendInFlight := true } := by
  intro sock' size rest heq hlast
  have hmtu := (sent_of_next heq hnext).1
  simp only [enqueue, hidle, List.nil_append] at heq
  cases sizes with
  | nil => cases heq
  | cons first others =>
      rw [List.map_cons, List.cons.injEq, Prod.mk.injEq] at heq
      obtain ⟨⟨rfl, rfl⟩, rfl⟩ := heq
      rw [sizesOf_same] at hlast
      have hpos := hsizes first List.mem_cons_self
      have hlt := cfg.mtu.toNat_lt
      right
      simp only [enqueue, Function.update_self, hpending, hlast, List.nil_append,
        List.sum_singleton]
      intro p hp
      obtain rfl := Option.some_inj.mp (Option.mem_def.mp hp)
      rw [u32_of_lt (by omega)]
      exact Nat.ne_of_gt hpos

theorem send_drained_iff {sock bid sid totalBytes : Nat} (h : Covered s) (hdrained : Drained s)
    (hpaced : Paced s) (hsend : s.send cfg sock bid sid totalBytes = some t) :
    (Covered t ∧ Paced t) ∧ (Drained t ↔ (totalBytes = 0 → s.fragmentsOf sock ≠ [])) := by
  rw [send] at hsend
  by_cases hstuck : cfg.maxPayload = 0 ∧ totalBytes ≠ 0
  · rw [if_pos hstuck] at hsend
    cases hsend
  · rw [if_neg hstuck] at hsend
    have hnil : (fragPayloads cfg.maxPayload totalBytes totalBytes).map (· + mscclHeaderSize) = [] ↔
        totalBytes = 0 := by
      rw [List.map_eq_nil_iff, fragPayloads_eq_nil_iff]
    have hsizes : ∀ size ∈ (fragPayloads cfg.maxPayload totalBytes totalBytes).map
        (· + mscclHeaderSize), 0 < size := by
      intro size hsize
      obtain ⟨payload, -, rfl⟩ := List.mem_map.mp hsize
      exact Nat.succ_pos _
    generalize (fragPayloads cfg.maxPayload totalBytes totalBytes).map (· + mscclHeaderSize) = sizes
      at hsend hnil hsizes
    have hcovered := h.enqueue sock bid sid hsizes
    have hiff := drained_enqueue_iff hdrained sock bid sid sizes
    rw [hnil] at hiff
    by_cases hflight : s.sendInFlight = true
    · simp only [hflight, if_true, Option.some.injEq] at hsend
      rw [← hsend]
      refine ⟨⟨hcovered, fun hidle => ?_⟩, hiff⟩
      exact absurd (hflight.symm.trans hidle) Bool.noConfusion
    · simp only [hflight, Bool.false_eq_true, if_false] at hsend
      have hidle := hpaced (Bool.eq_false_iff.mpr hflight)
      have hstart : Covered { s.enqueue sock bid sid sizes with sendInFlight := true } :=
        ⟨hcovered.bytes, hcovered.pos, hcovered.steps⟩
      refine ⟨⟨hstart.next hsend, paced_next hsend⟩, ?_⟩
      by_cases hzero : totalBytes = 0
      · have hnone : ({ s.enqueue sock bid sid sizes with sendInFlight := true } :
            SendDevice).pendingFragments = [] := by
          simp [enqueue, hidle, hnil.mpr hzero]
        rw [sendNextFragment_nil hnone, Option.some_inj] at hsend
        rw [← hsend]
        exact hiff
      · have hpending : s.pendingSends sock = [] := by
          apply (hdrained sock _).1
          rw [fragmentsOf, hidle, sizesOf_nil]
        have hd : Drained { s.enqueue sock bid sid sizes with sendInFlight := true } :=
          hiff.mpr fun hz => absurd hz hzero
        have hok := lastFragmentClears_enqueue hidle hpending hsizes hsend
        exact iff_of_true ((drained_next_iff hstart hd hsend).mpr hok) fun hz => absurd hz hzero

/-- A transfer of no bytes is requested only while other fragments of its socket are to be sent, and is
not the last one pending when the last of these leaves. -/
def KeepsDrained (s : SendDevice) : Event → Prop
  | .send sock _ _ totalBytes => totalBytes.toNat = 0 → s.fragmentsOf sock ≠ []
  | .sendNextFragment => LastFragmentClears s

theorem step_drained_iff {e : Event} (h : Covered s) (hdrained : Drained s) (hpaced : Paced s)
    (hstep : step cfg s e = some t) :
    (Covered t ∧ Paced t) ∧ (Drained t ↔ KeepsDrained s e) := by
  cases e with
  | send sock bid sid totalBytes => exact send_drained_iff h hdrained hpaced hstep
  | sendNextFragment =>
      rw [step, Option.ite_none_right_eq_some] at hstep
      exact ⟨⟨h.next hstep.2, paced_next hstep.2⟩, drained_next_iff h hdrained hstep.2⟩

theorem run_drained {es : List Event} (hrun : Run (step cfg) anyEvent initial es t) :
    (∀ bs cs u, es = bs ++ cs → Run (step cfg) anyEvent initial bs u → Drained u) ↔
      Run (step cfg) KeepsDrained initial es t := by
  refine Run.guarded_iff (P := Drained) (I := fun s => (Covered s ∧ Paced s) ∧ Drained s)
    (fun s hs => hs.2) ?_ ?_ hrun ?_
  · intro s e t hs hok hstep
    obtain ⟨hkeep, hiff⟩ := step_drained_iff hs.1.1 hs.2 hs.1.2 hstep
    exact ⟨hkeep, hiff.mpr hok⟩
  · intro s e t hs hnot hstep hd
    exact hnot ((step_drained_iff hs.1.1 hs.2 hs.1.2 hstep).2.mp hd)
  · refine ⟨⟨⟨fun _ => Nat.le_refl _, fun f hf => ?_, fun _ => rfl⟩, fun _ => rfl⟩, fun _ _ => ⟨rfl, rfl⟩⟩
    cases hf

end SendDevice

/-- In both transports nothing is left behind in exactly the runs whose steps meet the condition. -/
theorem no_message_left_behind {hw : Rdma.RdmaHw} {autoClose : Bool} {mscclFlowId : Nat}
    {es : List Rdma.Connection.Event} {c : Rdma.Connection} {cfg : SendConfig}
    {fs : List SendDevice.Event} {s : SendDevice}
    (hrdma : Run (Rdma.Connection.step hw) anyEvent (.initial autoClose mscclFlowId) es c)
    (hsocket : Run (SendDevice.step cfg) anyEvent .initial fs s) :
    ((∀ bs cs u, es = bs ++ cs →
        Run (Rdma.Connection.step hw) anyEvent (.initial autoClose mscclFlowId) bs u →
          u.Drained) ↔
      Run (Rdma.Connection.step hw) (Rdma.Connection.KeepsDrained hw)
        (.initial autoClose mscclFlowId) es c) ∧
    ((∀ bs cs u, fs = bs ++ cs → Run (SendDevice.step cfg) anyEvent .initial bs u → u.Drained) ↔
      Run (SendDevice.step cfg) SendDevice.KeepsDrained .initial fs s) :=
  ⟨Rdma.Connection.run_drained_iff hrdma, SendDevice.run_drained hsocket⟩

instance (hw : Rdma.RdmaHw) (c : Rdma.Connection) (e : Rdma.Connection.Event) :
    Decidable (Rdma.Connection.KeepsDrained hw c e) :=
  match e with
  | .push _ _ _ => inferInstanceAs (Decidable (_ → _ → _))
  | .sent =>
      decidable_of_iff (c.qp.messages.isEmpty = false → hw.ackInterval ≠ 0 ∨ c.qp.closed = true →
          c.qp.sndUna < c.total)
        (by rw [Rdma.Connection.KeepsDrained, ← List.isEmpty_eq_false_iff])
  | .send _ | .drop _ | .arrive _ _ | .dropAck _ | .ackArrive _ => isTrue trivial

instance (ps : List PendingSend) : Decidable (PendingSend.LastHasBytes ps) :=
  match h : ps.getLast? with
  | none => isTrue fun p hp => by rw [h] at hp; cases hp
  | some last =>
      decidable_of_iff (last.pendingBytes ≠ 0)
        (by rw [PendingSend.LastHasBytes, h]; simp)

instance (s : SendDevice) : Decidable s.LastFragmentClears :=
  match h : s.pendingFragments with
  | [] => isTrue fun sock size rest heq => by rw [h] at heq; cases heq
  | (sock, size) :: rest =>
      decidable_of_iff (SendDevice.sizesOf sock rest = [] →
          PendingSend.bytes (s.pendingSends sock) < size ∨
            PendingSend.LastHasBytes (s.pendingSends sock))
        (by rw [SendDevice.LastFragmentClears, h]; simp)

instance (s : SendDevice) (e : SendDevice.Event) : Decidable (s.KeepsDrained e) :=
  match e with
  | .send _ _ _ _ => inferInstanceAs (Decidable (_ → _))
  | .sendNextFragment => inferInstanceAs (Decidable s.LastFragmentClears)

/-- A message of no bytes behind one of two bytes, and both acknowledged. -/
def zeroBehindOther : List Rdma.Connection.Event :=
  [.push 2 none 0, .push 0 none 0, .send 0, .sent, .arrive 0 0, .ackArrive 0]

/-- Two transfers through one device, each of two fragments. -/
def twoTransfers : List SendDevice.Event :=
  [.send 0 0 0 96, .send 1 1 0 96, .sendNextFragment, .sendNextFragment, .sendNextFragment]

theorem zeroBehindOther_drained : ∃ c s,
    Run (Rdma.Connection.step (Rdma.Receiver.chunked false)) anyEvent (.initial false 0)
      zeroBehindOther c ∧
    Run (SendDevice.step ⟨100, .int32⟩) anyEvent .initial twoTransfers s ∧
    c.Drained ∧ s.Drained := by
  obtain ⟨c, hrdma, -⟩ := exists_run (Rdma.Connection.step (Rdma.Receiver.chunked false))
    (Rdma.Connection.KeepsDrained (Rdma.Receiver.chunked false)) (fun c => c.finished.length = 2)
    (.initial false 0) zeroBehindOther (by decide)
  obtain ⟨s, hsocket, -⟩ := exists_run (SendDevice.step ⟨100, .int32⟩) SendDevice.KeepsDrained
    (fun s => (s.completed 1).length = 1) .initial twoTransfers (by decide)
  obtain ⟨hc, hs⟩ := no_message_left_behind hrdma.any hsocket.any
  exact ⟨c, s, hrdma.any, hsocket.any, hc.mpr hrdma _ [] c (List.append_nil _).symm hrdma.any,
    hs.mpr hsocket _ [] s (List.append_nil _).symm hsocket.any⟩

/-- A message of no bytes on an idle connection: it stays, and the next message is never sent. -/
theorem zeroFirst_left_behind : ∃ c c',
    Run (Rdma.Connection.step ⟨1000, 1, 0, false, 500⟩) anyEvent (.initial false 0)
      [.push 0 none 0] c ∧ ¬ c.Drained ∧
    Rdma.Connection.step ⟨1000, 1, 0, false, 500⟩ c (.push 8 none 0) = some c' ∧
    Rdma.Connection.step ⟨1000, 1, 0, false, 500⟩ c' (.send 0) = none := by
  refine ⟨_, _, .cons trivial rfl (.nil _), ?_, rfl, ?_⟩
  · intro hdrained
    have hempty := (hdrained rfl (Nat.le_refl _)).1
    cases hempty
  · rfl

end CollectiveSim.Msccl
