import Mathlib

/-!
# Breadth-first search with metrics

A queue-based search over edge lists that records a metric for every node when it is first seen.
The metric of a node is computed from that of the node it was found from; `hops` counts the edges.
The result is characterised by `IsBfs`, and its hop counts are the distances of the graph.
-/

namespace CollectiveSim.Framework

namespace Bfs

variable {V E M : Type*} [DecidableEq V]

/-- Record every peer of the edges that has no metric yet; the list is what is put on the queue. -/
def scan (peer : E → V) (extend : M → E → M) (cur : M) :
    List E → (V → Option M) → (V → Option M) × List V
  | [], seen => (seen, [])
  | e :: es, seen =>
      if (seen (peer e)).isSome then scan peer extend cur es seen
      else
        let r := scan peer extend cur es (Function.update seen (peer e) (some (extend cur e)))
        (r.1, peer e :: r.2)

/-- Serve the queue; `fuel` bounds the number of nodes served. -/
def loop (adj : V → List E) (peer : E → V) (extend : M → E → M) :
    Nat → List V → (V → Option M) → (V → Option M)
  | 0, _, seen => seen
  | _ + 1, [], seen => seen
  | fuel + 1, cur :: rest, seen =>
      match seen cur with
      | none => loop adj peer extend fuel rest seen
      | some m =>
          let r := scan peer extend m (adj cur) seen
          loop adj peer extend fuel (rest ++ r.2) r.1

/-- The same service; `none` when the fuel runs out with nodes on the queue. -/
def run (adj : V → List E) (peer : E → V) (extend : M → E → M) :
    Nat → List V → (V → Option M) → Option (V → Option M)
  | _, [], seen => some seen
  | 0, _ :: _, _ => none
  | fuel + 1, cur :: rest, seen =>
      match seen cur with
      | none => run adj peer extend fuel rest seen
      | some m =>
          let r := scan peer extend m (adj cur) seen
          run adj peer extend fuel (rest ++ r.2) r.1

/-- Search from `root`, whose metric is `start`. -/
def search (adj : V → List E) (peer : E → V) (extend : M → E → M) (fuel : Nat) (root : V)
    (start : M) : V → Option M :=
  loop adj peer extend fuel [root] (Function.update (fun _ => none) root (some start))

/-- A metric assignment as breadth-first search leaves it. -/
structure IsBfs (adj : V → List E) (peer : E → V) (extend : M → E → M) (hops : M → Nat) (root : V)
    (start : M) (seen : V → Option M) : Prop where
  root_eq : seen root = some start
  parent : ∀ v m, seen v = some m → v = root ∨
    ∃ u mu e, seen u = some mu ∧ e ∈ adj u ∧ peer e = v ∧ m = extend mu e
  closed : ∀ u mu, seen u = some mu → ∀ e ∈ adj u,
    ∃ mw, seen (peer e) = some mw ∧ hops mw ≤ hops mu + 1

section Scan

variable (peer : E → V) (extend : M → E → M) (cur : M)

theorem scan_of_seen (es : List E) (seen : V → Option M) {v : V} {m : M} (h : seen v = some m) :
    (scan peer extend cur es seen).1 v = some m := by
  induction es generalizing seen with
  | nil => exact h
  | cons e es ih =>
      rw [scan]
      by_cases hseen : (seen (peer e)).isSome
      · rw [if_pos hseen]
        exact ih seen h
      · rw [if_neg hseen]
        apply ih
        have hne : v ≠ peer e := by
          rintro rfl
          exact hseen (h ▸ rfl)
        rwa [Function.update_of_ne hne]

theorem scan_cases (es : List E) (seen : V → Option M) {v : V} {m : M}
    (h : (scan peer extend cur es seen).1 v = some m) :
    seen v = some m ∨ seen v = none ∧ v ∈ (scan peer extend cur es seen).2 ∧
      ∃ e ∈ es, peer e = v ∧ m = extend cur e := by
  induction es generalizing seen with
  | nil => exact .inl h
  | cons e es ih =>
      rw [scan] at h ⊢
      by_cases hseen : (seen (peer e)).isSome
      · rw [if_pos hseen] at h ⊢
        rcases ih seen h with h | ⟨hnone, hmem, e', he', hpeer, hm⟩
        · exact .inl h
        · exact .inr ⟨hnone, hmem, e', List.mem_cons_of_mem e he', hpeer, hm⟩
      · rw [if_neg hseen] at h ⊢
        rw [Option.not_isSome_iff_eq_none] at hseen
        by_cases hv : v = peer e
        · subst hv
          have hfirst : extend cur e = m := by
            have := scan_of_seen peer extend cur es
              (Function.update seen (peer e) (some (extend cur e))) (Function.update_self ..)
            rw [this] at h
            exact Option.some.inj h
          exact .inr ⟨hseen, List.mem_cons_self, e, List.mem_cons_self, rfl, hfirst.symm⟩
        · rcases ih _ h with h | ⟨hnone, hmem, e', he', hpeer, hm⟩
          · rw [Function.update_of_ne hv] at h
            exact .inl h
          · rw [Function.update_of_ne hv] at hnone
            exact .inr ⟨hnone, List.mem_cons_of_mem _ hmem, e', List.mem_cons_of_mem e he', hpeer, hm⟩

theorem scan_fresh (es : List E) (seen : V → Option M) {v : V}
    (h : v ∈ (scan peer extend cur es seen).2) :
    seen v = none ∧ ∃ e ∈ es, (scan peer extend cur es seen).1 v = some (extend cur e) := by
  induction es generalizing seen with
  | nil => cases h
  | cons e es ih =>
      rw [scan] at h ⊢
      by_cases hseen : (seen (peer e)).isSome
      · rw [if_pos hseen] at h ⊢
        obtain ⟨hnone, e', he', hm⟩ := ih seen h
        exact ⟨hnone, e', List.mem_cons_of_mem e he', hm⟩
      · rw [if_neg hseen] at h ⊢
        rw [Option.not_isSome_iff_eq_none] at hseen
        rcases List.mem_cons.mp h with rfl | h
        · exact ⟨hseen, e, List.mem_cons_self, scan_of_seen peer extend cur es _
            (Function.update_self ..)⟩
        · obtain ⟨hnone, e', he', hm⟩ := ih _ h
          have hne : v ≠ peer e := by
            rintro rfl
            rw [Function.update_self] at hnone
            cases hnone
          rw [Function.update_of_ne hne] at hnone
          exact ⟨hnone, e', List.mem_cons_of_mem e he', hm⟩

theorem scan_peer (es : List E) (seen : V → Option M) {e : E} (he : e ∈ es) :
    ∃ m, (scan peer extend cur es seen).1 (peer e) = some m := by
  induction es generalizing seen with
  | nil => cases he
  | cons e' es ih =>
      rw [scan]
      by_cases hseen : (seen (peer e')).isSome
      · rw [if_pos hseen]
        rcases List.mem_cons.mp he with rfl | he
        · obtain ⟨m, hm⟩ := Option.isSome_iff_exists.mp hseen
          exact ⟨m, scan_of_seen peer extend cur es seen hm⟩
        · exact ih seen he
      · rw [if_neg hseen]
        rcases List.mem_cons.mp he with rfl | he
        · exact ⟨_, scan_of_seen peer extend cur es _ (Function.update_self ..)⟩
        · exact ih _ he

theorem scan_nodup (es : List E) (seen : V → Option M) :
    (scan peer extend cur es seen).2.Nodup := by
  induction es generalizing seen with
  | nil => exact List.nodup_nil
  | cons e es ih =>
      rw [scan]
      by_cases hseen : (seen (peer e)).isSome
      · rw [if_pos hseen]
        exact ih seen
      · rw [if_neg hseen]
        refine List.nodup_cons.mpr ⟨?_, ih _⟩
        intro hmem
        have hnone := (scan_fresh peer extend cur es _ hmem).1
        rw [Function.update_self] at hnone
        cases hnone

end Scan

/-- The search between two services: levels on the queue are sorted and at most one below the
deepest one recorded, and every served node has only recorded neighbours. -/
structure Frontier (adj : V → List E) (peer : E → V) (extend : M → E → M) (hops : M → Nat)
    (root : V) (start : M) (queue : List V) (seen : V → Option M) : Prop where
  root_eq : seen root = some start
  parent : ∀ v m, seen v = some m → v = root ∨
    ∃ u mu e, seen u = some mu ∧ e ∈ adj u ∧ peer e = v ∧ m = extend mu e
  queued : ∀ v ∈ queue, ∃ m, seen v = some m
  sorted : queue.Pairwise fun u v =>
    ∀ mu mv, seen u = some mu → seen v = some mv → hops mu ≤ hops mv
  near : ∀ c ∈ queue.head?, ∀ mc, seen c = some mc → ∀ v m, seen v = some m → hops m ≤ hops mc + 1
  served : ∀ u mu, seen u = some mu → u ∉ queue → ∀ e ∈ adj u,
    ∃ mw, seen (peer e) = some mw ∧ hops mw ≤ hops mu + 1

variable {adj : V → List E} {peer : E → V} {extend : M → E → M} {hops : M → Nat} {root : V}
  {start : M}

theorem Frontier.initial : Frontier adj peer extend hops root start [root]
    (Function.update (fun _ => none) root (some start)) := by
  have honly : ∀ v m, Function.update (fun _ => none) root (some start) v = some m →
      v = root ∧ m = start := by
    intro v m h
    by_cases hv : v = root
    · subst hv
      rw [Function.update_self] at h
      exact ⟨rfl, (Option.some.inj h).symm⟩
    · rw [Function.update_of_ne hv] at h
      cases h
  refine ⟨Function.update_self .., ?_, ?_, List.pairwise_singleton _ _, ?_, ?_⟩
  · intro v m h
    exact .inl (honly v m h).1
  · intro v hv
    rw [List.mem_singleton] at hv
    exact ⟨start, hv ▸ Function.update_self ..⟩
  · intro c hc mc hmc v m hm
    rw [(honly v m hm).2, (honly c mc hmc).2]
    exact Nat.le_succ _
  · intro u mu hu hnot
    exact absurd (List.mem_singleton.mpr (honly u mu hu).1) hnot

/-- Serving the front of the queue keeps the frontier. -/
theorem Frontier.serve (hext : ∀ m e, hops (extend m e) = hops m + 1) {cur : V} {rest : List V}
    {seen : V → Option M} {m : M}
    (h : Frontier adj peer extend hops root start (cur :: rest) seen) (hcur : seen cur = some m) :
    Frontier adj peer extend hops root start (rest ++ (scan peer extend m (adj cur) seen).2)
      (scan peer extend m (adj cur) seen).1 := by
  have hold : ∀ {v mv}, seen v = some mv → (scan peer extend m (adj cur) seen).1 v = some mv :=
    fun hv => scan_of_seen peer extend m (adj cur) seen hv
  have hfresh : ∀ v ∈ (scan peer extend m (adj cur) seen).2, ∀ mv,
      (scan peer extend m (adj cur) seen).1 v = some mv → hops mv = hops m + 1 := by
    intro v hv mv hmv
    obtain ⟨-, e, -, he⟩ := scan_fresh peer extend m (adj cur) seen hv
    rw [he] at hmv
    rw [← Option.some.inj hmv, hext]
  have hrest : ∀ v ∈ rest, ∀ mv, (scan peer extend m (adj cur) seen).1 v = some mv →
      seen v = some mv := by
    intro v hv mv hmv
    obtain ⟨mv', hmv'⟩ := h.queued v (List.mem_cons_of_mem _ hv)
    rw [hold hmv'] at hmv
    rwa [← Option.some.inj hmv]
  have hnear : ∀ v mv, (scan peer extend m (adj cur) seen).1 v = some mv → hops mv ≤ hops m + 1 := by
    intro v mv hmv
    rcases scan_cases peer extend m (adj cur) seen hmv with hv | ⟨-, -, e, -, -, rfl⟩
    · exact h.near cur rfl m hcur v mv hv
    · exact Nat.le_of_eq (hext m e)
  have hlow : ∀ v ∈ rest, ∀ mv, seen v = some mv → hops m ≤ hops mv := by
    intro v hv mv hmv
    exact (List.pairwise_cons.mp h.sorted).1 v hv m mv hcur hmv
  refine ⟨hold h.root_eq, ?_, ?_, ?_, ?_, ?_⟩
  · intro v mv hmv
    rcases scan_cases peer extend m (adj cur) seen hmv with hv | ⟨-, -, e, he, hpeer, rfl⟩
    · rcases h.parent v mv hv with rfl | ⟨u, mu, e, hu, he, hpeer, hmu⟩
      · exact .inl rfl
      · exact .inr ⟨u, mu, e, hold hu, he, hpeer, hmu⟩
    · exact .inr ⟨cur, m, e, hold hcur, he, hpeer, rfl⟩
  · intro v hv
    rcases List.mem_append.mp hv with hv | hv
    · obtain ⟨mv, hmv⟩ := h.queued v (List.mem_cons_of_mem _ hv)
      exact ⟨mv, hold hmv⟩
    · obtain ⟨-, e, -, he⟩ := scan_fresh peer extend m (adj cur) seen hv
      exact ⟨_, he⟩
  · refine List.pairwise_append.mpr ⟨?_, ?_, ?_⟩
    · refine (List.pairwise_cons.mp h.sorted).2.imp_of_mem ?_
      intro u v hu hv huv mu mv hmu hmv
      exact huv mu mv (hrest u hu mu hmu) (hrest v hv mv hmv)
    · refine List.pairwise_of_forall_mem_list ?_
      intro u hu v hv mu mv hmu hmv
      rw [hfresh u hu mu hmu, hfresh v hv mv hmv]
    · intro u _ v hv mu mv hmu hmv
      rw [hfresh v hv mv hmv]
      exact hnear u mu hmu
  · intro c hc mc hmc v mv hmv
    have hlevel : hops m ≤ hops mc := by
      rcases List.mem_append.mp (List.mem_of_mem_head? hc) with hc | hc
      · exact hlow c hc mc (hrest c hc mc hmc)
      · rw [hfresh c hc mc hmc]
        exact Nat.le_succ _
    exact Nat.le_trans (hnear v mv hmv) (Nat.succ_le_succ hlevel)
  · intro u mu hmu hnot e he
    rw [List.mem_append, not_or] at hnot
    rcases scan_cases peer extend m (adj cur) seen hmu with hu | ⟨-, hmem, -⟩
    · by_cases hucur : u = cur
      · subst hucur
        rw [hcur] at hu
        cases hu
        obtain ⟨mw, hmw⟩ := scan_peer peer extend m (adj u) seen he
        exact ⟨mw, hmw, hnear _ _ hmw⟩
      · have hnot' : u ∉ cur :: rest := by
          intro hmem
          rcases List.mem_cons.mp hmem with hmem | hmem
          · exact hucur hmem
          · exact hnot.1 hmem
        obtain ⟨mw, hmw, hle⟩ := h.served u mu hu hnot' e he
        exact ⟨mw, hold hmw, hle⟩
    · exact absurd hmem hnot.2

omit [DecidableEq V] in
theorem Frontier.isBfs {seen : V → Option M}
    (h : Frontier adj peer extend hops root start [] seen) :
    IsBfs adj peer extend hops root start seen :=
  ⟨h.root_eq, h.parent, fun u mu hu => h.served u mu hu List.not_mem_nil⟩

theorem card_unseen_scan (nodes : Finset V) {cur : V} (hpeer : ∀ e ∈ adj cur, peer e ∈ nodes) (m : M)
    (seen : V → Option M) :
    (scan peer extend m (adj cur) seen).2.length +
        (nodes.filter fun v => (scan peer extend m (adj cur) seen).1 v = none).card ≤
      (nodes.filter fun v => seen v = none).card := by
  have hsub : (nodes.filter fun v => (scan peer extend m (adj cur) seen).1 v = none) ⊆
      (nodes.filter fun v => seen v = none) \ (scan peer extend m (adj cur) seen).2.toFinset := by
    intro v hv
    rw [Finset.mem_filter] at hv
    rw [Finset.mem_sdiff, Finset.mem_filter, List.mem_toFinset]
    refine ⟨⟨hv.1, ?_⟩, ?_⟩
    · by_contra hne
      obtain ⟨mv, hmv⟩ := Option.ne_none_iff_exists'.mp hne
      rw [scan_of_seen peer extend m (adj cur) seen hmv] at hv
      cases hv.2
    · intro hmem
      obtain ⟨-, e, -, he⟩ := scan_fresh peer extend m (adj cur) seen hmem
      rw [he] at hv
      cases hv.2
  have hmem : (scan peer extend m (adj cur) seen).2.toFinset ⊆
      nodes.filter fun v => seen v = none := by
    intro v hv
    rw [List.mem_toFinset] at hv
    obtain ⟨hnone, e, -, he⟩ := scan_fresh peer extend m (adj cur) seen hv
    rcases scan_cases peer extend m (adj cur) seen he with hs | ⟨-, -, e', he', rfl, -⟩
    · rw [hnone] at hs
      cases hs
    · exact Finset.mem_filter.mpr ⟨hpeer e' he', hnone⟩
  have hcard := Finset.card_le_card hsub
  rw [Finset.card_sdiff_of_subset hmem,
    List.toFinset_card_of_nodup (scan_nodup peer extend m (adj cur) seen)] at hcard
  have hfresh := Finset.card_le_card hmem
  rw [List.toFinset_card_of_nodup (scan_nodup peer extend m (adj cur) seen)] at hfresh
  omega

theorem Frontier.exists_run (hext : ∀ m e, hops (extend m e) = hops m + 1) (nodes : Finset V)
    (hpeer : ∀ u, ∀ e ∈ adj u, peer e ∈ nodes) {fuel : Nat} {queue : List V} {seen : V → Option M}
    (h : Frontier adj peer extend hops root start queue seen)
    (hfuel : queue.length + (nodes.filter fun v => seen v = none).card ≤ fuel) :
    ∃ r, run adj peer extend fuel queue seen = some r ∧
      IsBfs adj peer extend hops root start r := by
  induction fuel generalizing queue seen with
  | zero =>
      have hnil : queue = [] := List.length_eq_zero_iff.mp (by omega)
      subst hnil
      exact ⟨seen, by rw [run], h.isBfs⟩
  | succ fuel ih =>
      cases queue with
      | nil => exact ⟨seen, by rw [run], h.isBfs⟩
      | cons cur rest =>
          obtain ⟨m, hcur⟩ := h.queued cur List.mem_cons_self
          rw [run, hcur]
          apply ih (h.serve hext hcur)
          have hcard : (scan peer extend m (adj cur) seen).2.length + _ ≤ _ :=
            card_unseen_scan nodes (hpeer cur) m seen
          simp only [List.length_append, List.length_cons] at hfuel ⊢
          omega

theorem run_enough {fuel fuel' : Nat} (hle : fuel ≤ fuel') {queue : List V}
    {seen r : V → Option M} (h : run adj peer extend fuel queue seen = some r) :
    run adj peer extend fuel' queue seen = some r ∧ loop adj peer extend fuel' queue seen = r := by
  induction fuel generalizing fuel' queue seen with
  | zero =>
      cases queue with
      | nil =>
          rw [run] at h ⊢
          cases fuel' <;> exact ⟨h, Option.some.inj h⟩
      | cons cur rest => cases h
  | succ fuel ih =>
      obtain ⟨k, rfl⟩ := Nat.exists_eq_add_of_le' hle
      have hle' : fuel ≤ k + fuel := Nat.le_add_left fuel k
      cases queue with
      | nil =>
          rw [run] at h ⊢
          exact ⟨h, Option.some.inj h⟩
      | cons cur rest =>
          rw [run] at h
          rw [← Nat.add_assoc, run, loop]
          cases hcur : seen cur with
          | none =>
              rw [hcur] at h
              exact ih hle' h
          | some m =>
              rw [hcur] at h
              exact ih hle' h

theorem exists_run_root (hext : ∀ m e, hops (extend m e) = hops m + 1) (nodes : Finset V)
    (hroot : root ∈ nodes) (hpeer : ∀ u, ∀ e ∈ adj u, peer e ∈ nodes) {fuel : Nat}
    (hfuel : nodes.card ≤ fuel) :
    ∃ r, run adj peer extend fuel [root] (Function.update (fun _ => none) root (some start)) = some r ∧
      IsBfs adj peer extend hops root start r := by
  apply Frontier.exists_run hext nodes hpeer .initial
  have hlt : (nodes.filter fun v =>
      Function.update (fun _ => none) root (some start) v = none).card < nodes.card := by
    apply Finset.card_lt_card
    refine Finset.filter_ssubset.mpr ⟨root, hroot, ?_⟩
    rw [Function.update_self]
    exact Option.some_ne_none start
  rw [List.length_singleton]
  omega

theorem search_of_isolated (hroot : adj root = []) (fuel : Nat) :
    search adj peer extend fuel root start = Function.update (fun _ => none) root (some start) := by
  rw [search]
  cases fuel with
  | zero => rfl
  | succ fuel =>
      rw [loop, Function.update_self, hroot]
      cases fuel <;> rfl

/-- A search with as much fuel as there are nodes is complete, and more fuel plays no part. -/
theorem search_spec (hext : ∀ m e, hops (extend m e) = hops m + 1) (nodes : Finset V)
    (hpeer : ∀ u, ∀ e ∈ adj u, peer e ∈ nodes) (hroot : root ∈ nodes ∨ adj root = [])
    {bound fuel : Nat} (hbound : nodes.card ≤ bound) (hfuel : bound < fuel) :
    run adj peer extend fuel [root] (Function.update (fun _ => none) root (some start)) =
        some (search adj peer extend bound root start) ∧
      IsBfs adj peer extend hops root start (search adj peer extend bound root start) := by
  cases hroot with
  | inl hmem =>
      obtain ⟨r, hrun, hr⟩ := exists_run_root hext nodes hmem hpeer hbound
      rw [search, (run_enough le_rfl hrun).2]
      exact ⟨(run_enough hfuel.le hrun).1, hr⟩
  | inr hnil =>
      have hpeer' : ∀ u, ∀ e ∈ adj u, peer e ∈ insert root nodes :=
        fun u e he => Finset.mem_insert_of_mem (hpeer u e he)
      have hcard : (insert root nodes).card ≤ fuel :=
        (Finset.card_insert_le root nodes).trans (by omega)
      obtain ⟨r, hrun, hr⟩ :=
        exists_run_root hext (insert root nodes) (Finset.mem_insert_self root nodes) hpeer' hcard
      have hsearch : search adj peer extend fuel root start = r :=
        (run_enough le_rfl hrun).2
      rw [search_of_isolated hnil] at hsearch
      rw [search_of_isolated hnil, hsearch]
      exact ⟨hsearch ▸ hrun, hr⟩

/-! ### Routes -/

/-- Edges that lead from `u` to `v` one after the other. -/
def Route (adj : V → List E) (peer : E → V) : V → List E → V → Prop
  | u, [], v => u = v
  | u, e :: es, v => e ∈ adj u ∧ Route adj peer (peer e) es v

/-- The undirected graph of the edge lists. -/
def linkGraph (adj : V → List E) (peer : E → V) : SimpleGraph V :=
  SimpleGraph.fromRel fun u v => ∃ e ∈ adj u, peer e = v

section Distance

omit [DecidableEq V]

variable {seen : V → Option M} {u v w : V} {es : List E}

theorem linkGraph_adj (u v : V) : (linkGraph adj peer).Adj u v ↔
    u ≠ v ∧ ((∃ e ∈ adj u, peer e = v) ∨ (∃ e ∈ adj v, peer e = u)) :=
  Iff.rfl

theorem Route.concat (h : Route adj peer u es w) {e : E} (he : e ∈ adj w) :
    Route adj peer u (es ++ [e]) (peer e) := by
  induction es generalizing u with
  | nil =>
      cases h
      exact ⟨he, rfl⟩
  | cons e' es ih => exact ⟨h.1, ih h.2⟩

theorem Route.exists_back {R : E → E → Prop}
    (hback : ∀ u, ∀ e ∈ adj u, ∃ e' ∈ adj (peer e), peer e' = u ∧ R e e')
    (h : Route adj peer u es v) :
    ∃ es', Route adj peer v es' u ∧ List.Forall₂ R es es'.reverse := by
  induction es generalizing u with
  | nil =>
      cases h
      exact ⟨[], rfl, .nil⟩
  | cons e es ih =>
      obtain ⟨he, hrest⟩ := h
      obtain ⟨e', he', hpeer, hR⟩ := hback u e he
      obtain ⟨es', hes', hall⟩ := ih hrest
      refine ⟨es' ++ [e'], hpeer ▸ hes'.concat he', ?_⟩
      rw [List.reverse_append]
      exact .cons hR hall

theorem Route.exists_walk (h : Route adj peer u es v) :
    ∃ p : (linkGraph adj peer).Walk u v, p.length ≤ es.length := by
  induction es generalizing u with
  | nil =>
      cases h
      exact ⟨.nil, le_rfl⟩
  | cons e es ih =>
      obtain ⟨he, hrest⟩ := h
      obtain ⟨p, hp⟩ := ih hrest
      by_cases hloop : u = peer e
      · rw [hloop]
        exact ⟨p, hp.trans (Nat.le_succ _)⟩
      · have hadj : (linkGraph adj peer).Adj u (peer e) :=
          (linkGraph_adj u (peer e)).mpr ⟨hloop, .inl ⟨e, he, rfl⟩⟩
        exact ⟨.cons hadj p, Nat.succ_le_succ hp⟩

theorem Route.dist_le (h : Route adj peer u es v) :
    (linkGraph adj peer).dist u v ≤ es.length := by
  obtain ⟨p, hp⟩ := h.exists_walk
  exact (SimpleGraph.dist_le p).trans hp

theorem hops_foldl (hext : ∀ m e, hops (extend m e) = hops m + 1) (es : List E) (m : M) :
    hops (es.foldl extend m) = hops m + es.length := by
  induction es generalizing m with
  | nil => rfl
  | cons e es ih =>
      rw [List.foldl_cons, ih, hext, List.length_cons]
      omega

theorem IsBfs.walk_le (h : IsBfs adj peer extend hops root start seen)
    (hsymm : ∀ u, ∀ e ∈ adj u, ∃ e' ∈ adj (peer e), peer e' = u) {u v : V}
    (p : (linkGraph adj peer).Walk u v) {mu : M} (hu : seen u = some mu) :
    ∃ mv, seen v = some mv ∧ hops mv ≤ hops mu + p.length := by
  induction p generalizing mu with
  | nil => exact ⟨mu, hu, Nat.le_refl _⟩
  | @cons u w v hadj p ih =>
      have hmw : ∃ mw, seen w = some mw ∧ hops mw ≤ hops mu + 1 := by
        rcases (linkGraph_adj u w).mp hadj with ⟨-, ⟨e, he, rfl⟩ | ⟨e, he, rfl⟩⟩
        · exact h.closed u mu hu e he
        · obtain ⟨e', he', rfl⟩ := hsymm w e he
          exact h.closed _ mu hu e' he'
      obtain ⟨mw, hw, hle⟩ := hmw
      obtain ⟨mv, hv, hle'⟩ := ih hw
      refine ⟨mv, hv, ?_⟩
      rw [SimpleGraph.Walk.length_cons]
      omega

/-- The metric of a node is what one route from the root adds up to. -/
theorem IsBfs.exists_route (h : IsBfs adj peer extend hops root start seen)
    (hext : ∀ m e, hops (extend m e) = hops m + 1) (hstart : hops start = 0) (k : Nat) {v : V}
    {m : M} (hv : seen v = some m) (hk : hops m = k) :
    ∃ es, Route adj peer root es v ∧ es.foldl extend start = m := by
  induction k generalizing v m with
  | zero =>
      rcases h.parent v m hv with rfl | ⟨u, mu, e, -, -, -, rfl⟩
      · rw [h.root_eq] at hv
        exact ⟨[], rfl, Option.some.inj hv⟩
      · rw [hext] at hk
        omega
  | succ k ih =>
      rcases h.parent v m hv with rfl | ⟨u, mu, e, hu, he, rfl, rfl⟩
      · rw [h.root_eq] at hv
        cases hv
        omega
      · rw [hext] at hk
        obtain ⟨es, hes, hfold⟩ := ih hu (Nat.succ.inj hk)
        refine ⟨es ++ [e], hes.concat he, ?_⟩
        rw [List.foldl_append, hfold]
        rfl

/-- The hop count of a recorded node is its distance from the root. -/
theorem IsBfs.hops_eq_dist (h : IsBfs adj peer extend hops root start seen)
    (hext : ∀ m e, hops (extend m e) = hops m + 1) (hstart : hops start = 0)
    (hsymm : ∀ u, ∀ e ∈ adj u, ∃ e' ∈ adj (peer e), peer e' = u) {v : V} {m : M}
    (hv : seen v = some m) :
    (linkGraph adj peer).Reachable root v ∧ hops m = (linkGraph adj peer).dist root v := by
  obtain ⟨es, hes, rfl⟩ := h.exists_route hext hstart (hops m) hv rfl
  obtain ⟨p, -⟩ := hes.exists_walk
  refine ⟨⟨p⟩, ?_⟩
  have hle := hes.dist_le
  obtain ⟨q, hq⟩ := SimpleGraph.Reachable.exists_walk_length_eq_dist ⟨p⟩
  obtain ⟨m', hm', hle'⟩ := h.walk_le hsymm q h.root_eq
  rw [hv] at hm'
  cases hm'
  rw [hops_foldl hext] at hle' ⊢
  omega

theorem IsBfs.exists_iff_reachable (h : IsBfs adj peer extend hops root start seen)
    (hext : ∀ m e, hops (extend m e) = hops m + 1) (hstart : hops start = 0)
    (hsymm : ∀ u, ∀ e ∈ adj u, ∃ e' ∈ adj (peer e), peer e' = u) (v : V) :
    (∃ m, seen v = some m) ↔ (linkGraph adj peer).Reachable root v := by
  constructor
  · rintro ⟨m, hm⟩
    exact (h.hops_eq_dist hext hstart hsymm hm).1
  · rintro ⟨p⟩
    obtain ⟨m, hm, -⟩ := h.walk_le hsymm p h.root_eq
    exact ⟨m, hm⟩

end Distance

end Bfs

end CollectiveSim.Framework
