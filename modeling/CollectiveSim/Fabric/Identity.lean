import Mathlib
import CollectiveSim.Fabric.Address

/-!
# Keys of the persistent connections

`MscclChannel::SetupRdmaSendPeer` opens one connection for each channel and peer, with a source port
from a 16-bit counter of the sending node. Queue pairs are found by integers packed from an address,
a port and a priority group.
-/

namespace CollectiveSim.Fabric

open Framework

def MSCCL_RDMA_SPORT_BASE : Nat := 20000
def MSCCL_RDMA_PG : Nat := 3

/-- The key of `RdmaHw::GetQpKey`. -/
def getQpKey (dip sport pg : Nat) : Nat := (dip <<< 32) ||| (sport <<< 16) ||| pg

/-- The key of `RdmaHw::GetRxQp`. -/
def getRxQpKey (dip dport pg : Nat) : Nat := (dip <<< 32) ||| (pg <<< 16) ||| dport

/-- A connection between two GPUs, named by their positions. -/
structure PeerConnection where
  sender : Nat
  receiver : Nat
  sport : Nat
  deriving DecidableEq

/-- The key in the sender's `m_qpMap`. -/
def PeerConnection.qpKey (c : PeerConnection) : Nat :=
  getQpKey (gpuIp c.receiver) c.sport MSCCL_RDMA_PG

/-- The key in the receiver's `m_rxQpMap`. -/
def PeerConnection.rxKey (c : PeerConnection) : Nat :=
  getRxQpKey (gpuIp c.sender) c.sport MSCCL_RDMA_PG

/-- The `SetupRdmaSendPeer` calls of all nodes, each a sender and a peer, in any order; `counter` is
the `m_rdmaSportCounter` of each node. -/
def setupRdmaPeersFrom (counter : Nat → Nat) : List (Nat × Nat) → List PeerConnection
  | [] => []
  | (sender, peer) :: setups =>
      ⟨sender, peer, u16 (MSCCL_RDMA_SPORT_BASE + counter sender)⟩ ::
        setupRdmaPeersFrom (Function.update counter sender (u16 (counter sender + 1))) setups

def setupRdmaPeers : List (Nat × Nat) → List PeerConnection := setupRdmaPeersFrom fun _ => 0

/-- The number of setups that `sender` makes before the `k`-th setup of the list. -/
def setupsBefore (setups : List (Nat × Nat)) (sender k : Nat) : Nat :=
  (setups.take k).countP fun x => x.1 = sender

/-- GPUs have distinct addresses, and connections of one node distinct keys. -/
structure DistinctIdentities (gpus : Nat) (setups : List (Nat × Nat)) : Prop where
  addresses : ∀ i < gpus, ∀ j < gpus, i ≠ j → gpuIp i ≠ gpuIp j
  rxKeys : (setupRdmaPeers setups).Pairwise fun c c' =>
    c.receiver = c'.receiver → c.rxKey ≠ c'.rxKey
  qpKeys : (setupRdmaPeers setups).Pairwise fun c c' => c.sender = c'.sender → c.qpKey ≠ c'.qpKey

/-- No sender repeats a peer after a multiple of `2 ^ 16` of its own setups. -/
def FreshPorts (setups : List (Nat × Nat)) : Prop :=
  ∀ i j, i < j → ∀ x, setups[i]? = some x → setups[j]? = some x →
    setupsBefore setups x.1 i % 2 ^ 16 ≠ setupsBefore setups x.1 j % 2 ^ 16

theorem setupRdmaPeersFrom_getElem? (counter : Nat → Nat) (setups : List (Nat × Nat)) (k : Nat) :
    (setupRdmaPeersFrom counter setups)[k]? = setups[k]?.map fun x =>
      ⟨x.1, x.2, u16 (MSCCL_RDMA_SPORT_BASE + counter x.1 + setupsBefore setups x.1 k)⟩ := by
  induction setups generalizing counter k with
  | nil => rfl
  | cons y setups ih =>
      obtain ⟨sender, peer⟩ := y
      cases k with
      | zero => rfl
      | succ k =>
          rw [setupRdmaPeersFrom, List.getElem?_cons_succ, ih, List.getElem?_cons_succ]
          cases setups[k]? with
          | none => rfl
          | some x =>
              simp only [Option.map_some, setupsBefore, List.take_succ_cons, List.countP_cons]
              congr 2
              by_cases hx : x.1 = sender
              · rw [hx, Function.update_self, decide_eq_true rfl, if_pos rfl, u16, u16, u16]
                omega
              · rw [Function.update_of_ne hx, decide_eq_false (Ne.symm hx), if_neg Bool.false_ne_true,
                  Nat.add_zero]

theorem setupRdmaPeers_getElem? (setups : List (Nat × Nat)) (k : Nat) :
    (setupRdmaPeers setups)[k]? = setups[k]?.map fun x =>
      ⟨x.1, x.2, u16 (MSCCL_RDMA_SPORT_BASE + setupsBefore setups x.1 k)⟩ := by
  rw [setupRdmaPeers, setupRdmaPeersFrom_getElem?]
  rfl

theorem pack_inj {a b c a' b' c' : Nat} (hb : b < 2 ^ 16) (hc : c < 2 ^ 16) (hb' : b' < 2 ^ 16)
    (hc' : c' < 2 ^ 16) (h : (a <<< 32) ||| (b <<< 16) ||| c = (a' <<< 32) ||| (b' <<< 16) ||| c') :
    a = a' ∧ b = b' ∧ c = c' := by
  have hpack : ∀ a b c : Nat, b < 2 ^ 16 → c < 2 ^ 16 →
      (a <<< 32) ||| (b <<< 16) ||| c = a * 2 ^ 32 + b * 2 ^ 16 + c := by
    intro a b c hb hc
    have hmid : b <<< 16 < 2 ^ 32 := by
      rw [Nat.shiftLeft_eq]
      omega
    rw [← Nat.shiftLeft_add_eq_or_of_lt hmid, Nat.shiftLeft_eq, Nat.shiftLeft_eq]
    have hsum : a * 2 ^ 32 + b * 2 ^ 16 = (a * 2 ^ 16 + b) <<< 16 := by
      rw [Nat.shiftLeft_eq]
      omega
    rw [hsum, ← Nat.shiftLeft_add_eq_or_of_lt hc]
  rw [hpack a b c hb hc, hpack a' b' c' hb' hc'] at h
  omega

theorem rxKey_eq_iff {c c' : PeerConnection} (h : c.sport < 2 ^ 16) (h' : c'.sport < 2 ^ 16) :
    c.rxKey = c'.rxKey ↔ gpuIp c.sender = gpuIp c'.sender ∧ c.sport = c'.sport := by
  constructor
  · intro heq
    obtain ⟨hip, -, hsport⟩ := pack_inj (by decide) h (by decide) h' heq
    exact ⟨hip, hsport⟩
  · rintro ⟨hip, hsport⟩
    rw [PeerConnection.rxKey, PeerConnection.rxKey, hip, hsport]

theorem qpKey_eq_iff {c c' : PeerConnection} (h : c.sport < 2 ^ 16) (h' : c'.sport < 2 ^ 16) :
    c.qpKey = c'.qpKey ↔ gpuIp c.receiver = gpuIp c'.receiver ∧ c.sport = c'.sport := by
  constructor
  · intro heq
    obtain ⟨hip, hsport, -⟩ := pack_inj h (by decide) h' (by decide) heq
    exact ⟨hip, hsport⟩
  · rintro ⟨hip, hsport⟩
    rw [PeerConnection.qpKey, PeerConnection.qpKey, hip, hsport]

theorem gpuIp_distinct_iff (gpus : Nat) :
    (∀ i < gpus, ∀ j < gpus, i ≠ j → gpuIp i ≠ gpuIp j) ↔ gpus ≤ 256 := by
  constructor
  · intro h
    by_contra hlt
    exact h 0 (by omega) 256 (by omega) (by decide) ((gpuIp_eq_iff 0 256).mpr rfl)
  · intro hle i hi j hj hne heq
    rw [gpuIp_eq_iff] at heq
    omega

private theorem pairwise_iff_getElem? {α : Type*} {R : α → α → Prop} {l : List α} :
    l.Pairwise R ↔ ∀ i j : Nat, i < j → ∀ a b, l[i]? = some a → l[j]? = some b → R a b := by
  rw [List.pairwise_iff_getElem]
  constructor
  · intro h i j hij a b ha hb
    obtain ⟨hi, rfl⟩ := List.getElem?_eq_some_iff.mp ha
    obtain ⟨hj, rfl⟩ := List.getElem?_eq_some_iff.mp hb
    exact h i j hi hj hij
  · intro h i j hi hj hij
    exact h i j hij _ _ (List.getElem?_eq_getElem hi) (List.getElem?_eq_getElem hj)

private theorem sport_eq_iff (m n : Nat) :
    u16 (MSCCL_RDMA_SPORT_BASE + m) = u16 (MSCCL_RDMA_SPORT_BASE + n) ↔
      m % 2 ^ 16 = n % 2 ^ 16 := by
  rw [u16, u16, MSCCL_RDMA_SPORT_BASE]
  omega

private theorem pairwise_iff {gpus : Nat} {setups : List (Nat × Nat)} (hgpus : gpus ≤ 256)
    (hsetups : ∀ x ∈ setups, x.1 < gpus ∧ x.2 < gpus) (f g : PeerConnection → Nat)
    (hfg : ∀ c c' : PeerConnection, (f c = f c' ∧ g c = g c' ↔
      c.sender = c'.sender ∧ c.receiver = c'.receiver))
    (hg : ∀ c : PeerConnection, c.sender < gpus → c.receiver < gpus → g c < gpus)
    (key : PeerConnection → Nat)
    (hkey : ∀ c c' : PeerConnection, c.sport < 2 ^ 16 → c'.sport < 2 ^ 16 →
      (key c = key c' ↔ gpuIp (g c) = gpuIp (g c') ∧ c.sport = c'.sport)) :
    (setupRdmaPeers setups).Pairwise (fun c c' => f c = f c' → key c ≠ key c') ↔
      FreshPorts setups := by
  have hport : ∀ m, u16 m < 2 ^ 16 := u16_lt
  constructor
  · intro h i j hij x hi hj hports
    have hci := setupRdmaPeers_getElem? setups i
    have hcj := setupRdmaPeers_getElem? setups j
    rw [hi, Option.map_some] at hci
    rw [hj, Option.map_some] at hcj
    have hne := pairwise_iff_getElem?.mp h i j hij _ _ hci hcj
    obtain ⟨hf, hgeq⟩ := (hfg ⟨x.1, x.2, u16 (MSCCL_RDMA_SPORT_BASE + setupsBefore setups x.1 i)⟩
      ⟨x.1, x.2, u16 (MSCCL_RDMA_SPORT_BASE + setupsBefore setups x.1 j)⟩).mpr ⟨rfl, rfl⟩
    exact hne hf ((hkey _ _ (hport _) (hport _)).mpr
      ⟨congrArg gpuIp hgeq, (sport_eq_iff _ _).mpr hports⟩)
  · intro h
    rw [pairwise_iff_getElem?]
    intro i j hij c c' hci hcj hf heq
    rw [setupRdmaPeers_getElem?, Option.map_eq_some_iff] at hci hcj
    obtain ⟨x, hx, rfl⟩ := hci
    obtain ⟨y, hy, rfl⟩ := hcj
    obtain ⟨hip, hsport⟩ := (hkey _ _ (hport _) (hport _)).mp heq
    have hxlt := hsetups x (List.mem_of_getElem? hx)
    have hylt := hsetups y (List.mem_of_getElem? hy)
    have hgeq := (gpuIp_eq_iff _ _).mp hip
    rw [Nat.mod_eq_of_lt (Nat.lt_of_lt_of_le (hg _ hxlt.1 hxlt.2) hgpus),
      Nat.mod_eq_of_lt (Nat.lt_of_lt_of_le (hg _ hylt.1 hylt.2) hgpus)] at hgeq
    obtain ⟨hsender, hreceiver⟩ := (hfg _ _).mp ⟨hf, hgeq⟩
    have hxy : x = y := Prod.ext hsender hreceiver
    subst hxy
    exact h i j hij x hx hy ((sport_eq_iff _ _).mp hsport)

/-- Identities are distinct exactly for at most 256 GPUs whose port counters do not come round. -/
theorem distinctIdentities_iff (gpus : Nat) (setups : List (Nat × Nat))
    (hsetups : ∀ x ∈ setups, x.1 < gpus ∧ x.2 < gpus) :
    DistinctIdentities gpus setups ↔ gpus ≤ 256 ∧ FreshPorts setups := by
  have hrx : gpus ≤ 256 → ((setupRdmaPeers setups).Pairwise
      (fun c c' => c.receiver = c'.receiver → c.rxKey ≠ c'.rxKey) ↔ FreshPorts setups) :=
    fun hgpus => pairwise_iff hgpus hsetups PeerConnection.receiver PeerConnection.sender
      (fun _ _ => and_comm) (fun _ h _ => h) PeerConnection.rxKey (fun _ _ => rxKey_eq_iff)
  have hqp : gpus ≤ 256 → ((setupRdmaPeers setups).Pairwise
      (fun c c' => c.sender = c'.sender → c.qpKey ≠ c'.qpKey) ↔ FreshPorts setups) :=
    fun hgpus => pairwise_iff hgpus hsetups PeerConnection.sender PeerConnection.receiver
      (fun _ _ => Iff.rfl) (fun _ _ h => h) PeerConnection.qpKey (fun _ _ => qpKey_eq_iff)
  constructor
  · intro h
    have hgpus := (gpuIp_distinct_iff gpus).mp h.addresses
    exact ⟨hgpus, (hrx hgpus).mp h.rxKeys⟩
  · rintro ⟨hgpus, hfresh⟩
    exact ⟨(gpuIp_distinct_iff gpus).mpr hgpus, (hrx hgpus).mpr hfresh, (hqp hgpus).mpr hfresh⟩

/-- Two GPUs, each sending to the other on two channels. -/
theorem distinctIdentities_two_channels :
    (∀ x ∈ [(0, 1), (1, 0), (0, 1), (1, 0)], x.1 < 2 ∧ x.2 < 2) ∧
      DistinctIdentities 2 [(0, 1), (1, 0), (0, 1), (1, 0)] := by
  have hsetups : ∀ x ∈ [(0, 1), (1, 0), (0, 1), (1, 0)], x.1 < 2 ∧ x.2 < 2 := by decide
  refine ⟨hsetups, (distinctIdentities_iff 2 _ hsetups).mpr ⟨by decide, ?_⟩⟩
  intro i j hij x hi hj
  have hj4 : j < 4 := (List.getElem?_eq_some_iff.mp hj).1
  interval_cases j <;> interval_cases i <;> cases hi <;> cases hj <;> decide

/-- With 257 GPUs the first and the last one share the address 10.0.0.1, and with it the receive key
of their first connection to GPU 1. -/
theorem not_distinctIdentities_257 :
    gpuIp 0 = gpuIp 256 ∧
      (setupRdmaPeers [(0, 1), (256, 1)]).map PeerConnection.rxKey =
        [gpuIp 0 * 2 ^ 32 + 3 * 2 ^ 16 + 20000, gpuIp 0 * 2 ^ 32 + 3 * 2 ^ 16 + 20000] ∧
      ¬ DistinctIdentities 257 [(0, 1), (256, 1)] := by
  refine ⟨by decide +kernel, by decide +kernel, ?_⟩
  intro h
  have := (gpuIp_distinct_iff 257).mp h.addresses
  omega

end CollectiveSim.Fabric
