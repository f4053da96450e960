import Mathlib

/-!
# Numbering what a search reaches

A queue-based search that marks a node when it is taken from the queue, so that a node may be queued
more than once. Searches from every node in turn that has no mark yet number the nodes; where each
of them reaches its whole component, the numbers are those of the components.
-/

namespace CollectiveSim.Framework

namespace Flood

variable {V L : Type*} [DecidableEq V]

/-- Serve the queue, marking what is taken from it; `none` when the fuel runs out. -/
def flood (next : V → List V) (mark : L) : Nat → List V → (V → Option L) → Option (V → Option L)
  | _, [], label => some label
  | 0, _ :: _, _ => none
  | fuel + 1, v :: q, label =>
      let label := Function.update label v (some mark)
      flood next mark fuel (q ++ (next v).filter fun w => (label w).isNone) label

/-- Search from every node that has no number when its turn comes; the result is the last number and
the numbers. -/
def number (next : V → List V) (fuel : Nat) : List V → Nat → (V → Option Nat) →
    Option (Nat × (V → Option Nat))
  | [], count, label => some (count, label)
  | v :: vs, count, label =>
      if (label v).isSome then number next fuel vs count label
      else do
        let label ← flood next (count + 1) fuel [v] label
        number next fuel vs (count + 1) label

/-! ## Enough fuel -/

section

variable {next : V → List V} {mark : L}

theorem flood_mono {fuel fuel' : Nat} (hle : fuel ≤ fuel') {q : List V} {label r : V → Option L}
    (h : flood next mark fuel q label = some r) : flood next mark fuel' q label = some r := by
  induction fuel generalizing fuel' q label with
  | zero =>
      cases q with
      | nil => cases fuel' <;> exact h
      | cons v q => cases h
  | succ fuel ih =>
      cases fuel' with
      | zero => omega
      | succ fuel' =>
          cases q with
          | nil => exact h
          | cons v q =>
              rw [flood] at h ⊢
              exact ih (by omega) h

/-- The nodes without a mark. -/
def unmarked [Fintype V] (label : V → Option L) : Finset V :=
  Finset.univ.filter fun v => label v = none

theorem unmarked_update [Fintype V] (label : V → Option L) (v : V) :
    unmarked (Function.update label v (some mark)) = (unmarked label).erase v := by
  ext w
  by_cases hw : w = v <;> simp [unmarked, hw]

omit [DecidableEq V] in
theorem exists_split (label : V → Option L) (q : List V) :
    ∃ done rest, q = done ++ rest ∧ (∀ v ∈ done, label v ≠ none) ∧
      ∀ v ∈ rest.head?, label v = none := by
  induction q with
  | nil => exact ⟨[], [], rfl, by simp, by simp⟩
  | cons v q ih =>
      by_cases hv : label v = none
      · exact ⟨[], v :: q, rfl, by simp, by simpa using hv⟩
      · obtain ⟨done, rest, rfl, hdone, hrest⟩ := ih
        exact ⟨v :: done, rest, rfl, List.forall_mem_cons.mpr ⟨hv, hdone⟩, hrest⟩

theorem exists_flood_of_marked [Fintype V] {n : Nat}
    (ih : ∀ q (label : V → Option L), (unmarked label).card < n →
      ∃ fuel r, flood next mark fuel q label = some r)
    (done rest : List V) (label : V → Option L) (hcard : (unmarked label).card = n)
    (hdone : ∀ v ∈ done, label v ≠ none) (hrest : ∀ v ∈ rest.head?, label v = none) :
    ∃ fuel r, flood next mark fuel (done ++ rest) label = some r := by
  induction done generalizing rest label with
  | nil =>
      cases rest with
      | nil => exact ⟨0, label, rfl⟩
      | cons v rest =>
          have hv : v ∈ unmarked label := by simpa [unmarked] using hrest
          have hlt : (unmarked (Function.update label v (some mark))).card < n := by
            rw [unmarked_update, ← hcard]
            exact Finset.card_erase_lt_of_mem hv
          obtain ⟨fuel, r, hr⟩ := ih _ _ hlt
          exact ⟨fuel + 1, r, hr⟩
  | cons v done ihdone =>
      rw [List.forall_mem_cons] at hdone
      have hv : v ∉ unmarked label := by simpa [unmarked] using hdone.1
      have hlabel : ∀ w, Function.update label v (some mark) w = none ↔ label w = none := by
        intro w
        by_cases hw : w = v
        · subst hw
          simp [hdone.1]
        · simp [Function.update_of_ne hw]
      have hhead : ∀ w ∈ (rest ++ (next v).filter fun w =>
          (Function.update label v (some mark) w).isNone).head?,
            Function.update label v (some mark) w = none := by
        intro w hw
        cases rest with
        | nil =>
            have hmem := List.mem_of_mem_head? hw
            simpa using (List.mem_filter.mp hmem).2
        | cons x rest =>
            rw [hlabel]
            exact hrest w hw
      obtain ⟨fuel, r, hr⟩ := ihdone _ (Function.update label v (some mark))
        (by rw [unmarked_update, Finset.erase_eq_of_notMem hv, hcard])
        (fun w hw => (hlabel w).not.mpr (hdone.2 w hw)) hhead
      refine ⟨fuel + 1, r, ?_⟩
      rw [List.cons_append, flood, List.append_assoc]
      exact hr

theorem exists_flood [Fintype V] (next : V → List V) (mark : L) (q : List V)
    (label : V → Option L) : ∃ fuel r, flood next mark fuel q label = some r := by
  induction hcard : (unmarked label).card using Nat.strong_induction_on generalizing q label with
  | _ n ih =>
      obtain ⟨done, rest, rfl, hdone, hrest⟩ := exists_split label q
      exact exists_flood_of_marked (fun q label hlt => ih _ hlt q label rfl) done rest label hcard
        hdone hrest

theorem exists_number [Fintype V] (next : V → List V) (vs : List V) (count : Nat)
    (label : V → Option Nat) : ∃ N, ∀ fuel, N ≤ fuel → ∃ r, number next fuel vs count label = some r := by
  induction vs generalizing count label with
  | nil => exact ⟨0, fun fuel _ => ⟨_, rfl⟩⟩
  | cons v vs ih =>
      by_cases hv : (label v).isSome
      · obtain ⟨N, hN⟩ := ih count label
        refine ⟨N, fun fuel hfuel => ?_⟩
        rw [number, if_pos hv]
        exact hN fuel hfuel
      · obtain ⟨first, label', hlabel⟩ := exists_flood next (count + 1) [v] label
        obtain ⟨N, hN⟩ := ih (count + 1) label'
        refine ⟨max first N, fun fuel hfuel => ?_⟩
        rw [number, if_neg hv, flood_mono (le_of_max_le_left hfuel) hlabel]
        exact hN fuel (le_of_max_le_right hfuel)

end

/-! ## What one search marks -/

section

variable (next : V → List V) (label : V → Option L) (root : V)

/-- Reached from the root over nodes without a mark. -/
def Reached : V → Prop := Relation.ReflTransGen (fun u w => w ∈ next u ∧ label w = none) root

/-- The search between two services: whatever it has marked leads to marked nodes and to those on
the queue. -/
structure Flooding (mark : L) (q : List V) (now : V → Option L) : Prop where
  old : ∀ v, ¬ Reached next label root v → now v = label v
  marks : ∀ v, now v = label v ∨ now v = some mark
  queued : ∀ v ∈ q, Reached next label root v
  start : root ∈ q ∨ now root = some mark
  closed : ∀ u, Reached next label root u → now u = some mark →
    ∀ w ∈ next u, label w = none → now w = some mark ∨ w ∈ q

variable {next label root} {mark : L} {q : List V} {now : V → Option L}

omit [DecidableEq V] in
theorem Flooding.initial (hfresh : ∀ v, label v ≠ some mark) :
    Flooding next label root mark [root] label where
  old _ _ := rfl
  marks _ := .inl rfl
  queued v hv := by
    rw [List.mem_singleton.mp hv]
    exact .refl
  start := .inl (List.mem_singleton_self root)
  closed u _ hu := absurd hu (hfresh u)

theorem Flooding.serve {v : V} (h : Flooding next label root mark (v :: q) now) :
    Flooding next label root mark
      (q ++ (next v).filter fun w => (Function.update now v (some mark) w).isNone)
      (Function.update now v (some mark)) := by
  have hv : Reached next label root v := h.queued v List.mem_cons_self
  have hmarked {w : V} (hw : now w = some mark) :
      Function.update now v (some mark) w = some mark := by
    by_cases hwv : w = v
    · rw [hwv, Function.update_self]
    · rw [Function.update_of_ne hwv, hw]
  have hmarks (w : V) : Function.update now v (some mark) w = label w ∨
      Function.update now v (some mark) w = some mark := by
    rcases h.marks w with hw | hw
    · by_cases hwv : w = v
      · exact .inr (by rw [hwv, Function.update_self])
      · exact .inl (by rw [Function.update_of_ne hwv, hw])
    · exact .inr (hmarked hw)
  refine ⟨?_, hmarks, ?_, ?_, ?_⟩
  · intro w hw
    have hwv : w ≠ v := by
      rintro rfl
      exact hw hv
    rw [Function.update_of_ne hwv, h.old w hw]
  · intro w hw
    rcases List.mem_append.mp hw with hw | hw
    · exact h.queued w (List.mem_cons_of_mem v hw)
    · obtain ⟨hnext, hnone⟩ := List.mem_filter.mp hw
      by_cases hreached : Reached next label root w
      · exact hreached
      · refine hv.tail ⟨hnext, ?_⟩
        have hwv : w ≠ v := by
          rintro rfl
          exact hreached hv
        rw [← h.old w hreached]
        simpa [Function.update_of_ne hwv] using hnone
  · rcases h.start with hroot | hroot
    · rcases List.mem_cons.mp hroot with rfl | hroot
      · exact .inr (Function.update_self ..)
      · exact .inl (List.mem_append_left _ hroot)
    · exact .inr (hmarked hroot)
  · intro u hu hnow w hw hnone
    by_cases huv : u = v
    · subst huv
      rcases hmarks w with hmark | hmark
      · refine .inr (List.mem_append_right _ (List.mem_filter.mpr ⟨hw, ?_⟩))
        rw [hmark, hnone]
        rfl
      · exact .inl hmark
    · rw [Function.update_of_ne huv] at hnow
      rcases h.closed u hu hnow w hw hnone with hmark | hmem
      · exact .inl (hmarked hmark)
      · rcases List.mem_cons.mp hmem with rfl | hmem
        · exact .inl (Function.update_self ..)
        · exact .inr (List.mem_append_left _ hmem)

theorem Flooding.of_flood {fuel : Nat} {r : V → Option L} (h : Flooding next label root mark q now)
    (hflood : flood next mark fuel q now = some r) : Flooding next label root mark [] r := by
  induction fuel generalizing q now with
  | zero =>
      cases q with
      | nil =>
          cases hflood
          exact h
      | cons v q => cases hflood
  | succ fuel ih =>
      cases q with
      | nil =>
          cases hflood
          exact h
      | cons v q => exact ih h.serve hflood

/-- A search marks what it reaches and nothing else. -/
theorem flood_spec (hfresh : ∀ v, label v ≠ some mark) {fuel : Nat} {r : V → Option L}
    (hflood : flood next mark fuel [root] label = some r) (v : V) :
    (Reached next label root v → r v = some mark) ∧
      (¬ Reached next label root v → r v = label v) := by
  have hdone := (Flooding.initial hfresh).of_flood hflood
  refine ⟨fun hv => ?_, hdone.old v⟩
  induction hv with
  | refl => simpa using hdone.start
  | tail hu hstep ih => simpa using hdone.closed _ hu ih _ hstep.1 hstep.2

omit [DecidableEq V] in
theorem Reached.reflTransGen {v : V} (h : Reached next label root v) :
    Relation.ReflTransGen (fun u w => w ∈ next u) root v := by
  induction h with
  | refl => exact .refl
  | tail _ hstep ih => exact ih.tail hstep.1

omit [DecidableEq V] in
theorem Reached.eq_or_none {v : V} (h : Reached next label root v) : v = root ∨ label v = none := by
  cases h with
  | refl => exact .inl rfl
  | tail _ hstep => exact .inr hstep.2

end

end Flood

/-! ## What the numbers tell -/

namespace Flood

variable {V : Type*} [LinearOrder V]

/-- The first node of every component reaches all of it. -/
def ReachesComponents (next : V → List V) (link : V → V → Prop) : Prop :=
  ∀ root, (∀ u, Relation.EqvGen link root u → root ≤ u) → ∀ v, Relation.EqvGen link root v →
    Relation.ReflTransGen (fun u w => w ∈ next u) root v

/-- Numbers 1 to `count`, each given by a search from the first node that has it; `vs` is still to
come. -/
structure Numbered (next : V → List V) (vs : List V) (count : Nat) (label : V → Option Nat) :
    Prop where
  earlier : ∀ v, v ∈ vs ∨ (label v).isSome
  used : ∀ k, (∃ v, label v = some k) ↔ 1 ≤ k ∧ k ≤ count
  first : ∀ v k, label v = some k → ∃ root, IsLeast {u | label u = some k} root ∧
    Relation.ReflTransGen (fun u w => w ∈ next u) root v

/-- Numbers that tell the components of numbered nodes. -/
def Separated (link : V → V → Prop) (label : V → Option Nat) : Prop :=
  ∀ u v, (label u).isSome → (label u = label v ↔ Relation.EqvGen link u v)

section

variable {next : V → List V} {link : V → V → Prop} {vs : List V} {count : Nat}
  {label r : V → Option Nat} {v : V}

theorem Numbered.initial (hall : ∀ v, v ∈ vs) : Numbered next vs 0 fun _ => none where
  earlier v := .inl (hall v)
  used k := by
    constructor
    · rintro ⟨v, hv⟩
      cases hv
    · omega
  first v k h := by cases h

theorem Numbered.skip (h : Numbered next (v :: vs) count label) (hv : (label v).isSome) :
    Numbered next vs count label where
  earlier u := by
    rcases h.earlier u with hu | hu
    · rcases List.mem_cons.mp hu with rfl | hu
      · exact .inr hv
      · exact .inl hu
    · exact .inr hu
  used := h.used
  first := h.first

theorem Numbered.fresh (h : Numbered next vs count label) (u : V) : label u ≠ some (count + 1) := by
  intro hu
  have hle := ((h.used _).mp ⟨u, hu⟩).2
  omega

theorem Numbered.le_of_none (h : Numbered next (v :: vs) count label)
    (hsorted : (v :: vs).Pairwise (· < ·)) {u : V} (hu : label u = none) : v ≤ u := by
  rcases h.earlier u with hmem | hsome
  · rcases List.mem_cons.mp hmem with rfl | hmem
    · exact le_rfl
    · exact ((List.pairwise_cons.mp hsorted).1 u hmem).le
  · rw [hu] at hsome
    cases hsome

/-- A search from a node without a number gives one more number. -/
theorem Numbered.search (h : Numbered next (v :: vs) count label)
    (hsorted : (v :: vs).Pairwise (· < ·)) (hv : label v = none) {fuel : Nat}
    (hflood : flood next (count + 1) fuel [v] label = some r) :
    Numbered next vs (count + 1) r := by
  have hspec := flood_spec h.fresh hflood
  have hstart : r v = some (count + 1) := (hspec v).1 .refl
  have hnumbered {u : V} {k : Nat} (hu : label u = some k) : r u = some k := by
    rw [← hu]
    apply (hspec u).2
    intro hreached
    rcases hreached.eq_or_none with rfl | hnone
    · cases hv.symm.trans hu
    · cases hnone.symm.trans hu
  have hcases {u : V} {k : Nat} (hu : r u = some k) :
      k = count + 1 ∧ Reached next label v u ∨ k ≤ count ∧ label u = some k := by
    by_cases hreached : Reached next label v u
    · rw [(hspec u).1 hreached] at hu
      cases hu
      exact .inl ⟨rfl, hreached⟩
    · rw [(hspec u).2 hreached] at hu
      exact .inr ⟨((h.used k).mp ⟨u, hu⟩).2, hu⟩
  refine ⟨?_, ?_, ?_⟩
  · intro u
    rcases h.earlier u with hmem | hsome
    · rcases List.mem_cons.mp hmem with rfl | hmem
      · exact .inr (by rw [hstart]; rfl)
      · exact .inl hmem
    · obtain ⟨k, hk⟩ := Option.isSome_iff_exists.mp hsome
      exact .inr (by rw [hnumbered hk]; rfl)
  · intro k
    constructor
    · rintro ⟨u, hu⟩
      rcases hcases hu with ⟨rfl, -⟩ | ⟨-, hlabel⟩
      · omega
      · have hk := (h.used k).mp ⟨u, hlabel⟩
        omega
    · rintro ⟨hpos, hle⟩
      by_cases hk : k = count + 1
      · exact ⟨v, by rw [hk, hstart]⟩
      · obtain ⟨u, hu⟩ := (h.used k).mpr ⟨hpos, by omega⟩
        exact ⟨u, hnumbered hu⟩
  · intro u k hu
    rcases hcases hu with ⟨rfl, hreached⟩ | ⟨hle, hlabel⟩
    · refine ⟨v, ⟨hstart, ?_⟩, hreached.reflTransGen⟩
      intro w hw
      rcases hcases hw with ⟨-, hw⟩ | ⟨hle, -⟩
      · rcases hw.eq_or_none with rfl | hnone
        · exact le_rfl
        · exact h.le_of_none hsorted hnone
      · omega
    · obtain ⟨root, ⟨hroot, hleast⟩, hreach⟩ := h.first u k hlabel
      refine ⟨root, ⟨hnumbered hroot, ?_⟩, hreach⟩
      intro w hw
      rcases hcases hw with ⟨hk, -⟩ | ⟨-, hw⟩
      · omega
      · exact hleast hw

theorem Separated.search (hsep : Separated link label) (hnext : ∀ u, ∀ w ∈ next u, link u w)
    (hreaches : ReachesComponents next link) (h : Numbered next (v :: vs) count label)
    (hsorted : (v :: vs).Pairwise (· < ·)) (hv : label v = none) {fuel : Nat}
    (hflood : flood next (count + 1) fuel [v] label = some r) : Separated link r := by
  have hspec := flood_spec h.fresh hflood
  -- a node with a number is in a component of such nodes
  have hnone {u : V} (hu : Relation.EqvGen link v u) : label u = none := by
    by_contra hne
    have heq := (hsep u v (Option.ne_none_iff_isSome.mp hne)).mpr hu.symm
    exact hne (heq.trans hv)
  have hlinked {u : V} (hu : Relation.ReflTransGen (fun u w => w ∈ next u) v u) :
      Relation.EqvGen link v u := by
    induction hu with
    | refl => exact .refl v
    | tail _ hstep ih => exact ih.trans _ _ _ (.rel _ _ (hnext _ _ hstep))
  have hreached (u : V) : Reached next label v u ↔ Relation.EqvGen link v u := by
    constructor
    · exact fun hu => hlinked hu.reflTransGen
    · intro hu
      have hreach := hreaches v (fun w hw => h.le_of_none hsorted (hnone hw)) u hu
      clear hu
      induction hreach with
      | refl => exact .refl
      | tail hpath hstep ih => exact ih.tail ⟨hstep, hnone (hlinked (hpath.tail hstep))⟩
  intro u w hu
  by_cases hvu : Relation.EqvGen link v u
  · rw [(hspec u).1 ((hreached u).mpr hvu)]
    constructor
    · intro hw
      have hvw : Reached next label v w := by
        by_contra hnot
        rw [(hspec w).2 hnot] at hw
        exact h.fresh w hw.symm
      exact hvu.symm.trans _ _ _ ((hreached w).mp hvw)
    · intro huw
      exact ((hspec w).1 ((hreached w).mpr (hvu.trans _ _ _ huw))).symm
  · have hold := (hspec u).2 ((hreached u).not.mpr hvu)
    rw [hold] at hu ⊢
    by_cases hvw : Relation.EqvGen link v w
    · rw [(hspec w).1 ((hreached w).mpr hvw)]
      exact iff_of_false (h.fresh u) fun huw => hvu (hvw.trans _ _ _ huw.symm)
    · rw [(hspec w).2 ((hreached w).not.mpr hvw)]
      exact hsep u w hu

theorem Numbered.number {fuel : Nat} {result : Nat × (V → Option Nat)}
    (h : Numbered next vs count label) (hsorted : vs.Pairwise (· < ·))
    (hnumber : number next fuel vs count label = some result) :
    Numbered next [] result.1 result.2 := by
  induction vs generalizing count label with
  | nil =>
      cases hnumber
      exact h
  | cons v vs ih =>
      rw [Flood.number] at hnumber
      have hrest := (List.pairwise_cons.mp hsorted).2
      split at hnumber
      · next hv => exact ih (h.skip hv) hrest hnumber
      · next hv =>
          obtain ⟨r, hr, hnumber⟩ := Option.bind_eq_some_iff.mp hnumber
          exact ih (h.search hsorted (Option.not_isSome_iff_eq_none.mp hv) hr) hrest hnumber

theorem Separated.number {fuel : Nat} {result : Nat × (V → Option Nat)}
    (hsep : Separated link label) (hnext : ∀ u, ∀ w ∈ next u, link u w)
    (hreaches : ReachesComponents next link) (h : Numbered next vs count label)
    (hsorted : vs.Pairwise (· < ·)) (hnumber : number next fuel vs count label = some result) :
    Separated link result.2 := by
  induction vs generalizing count label with
  | nil =>
      cases hnumber
      exact hsep
  | cons v vs ih =>
      rw [Flood.number] at hnumber
      have hrest := (List.pairwise_cons.mp hsorted).2
      split at hnumber
      · next hv => exact ih hsep (h.skip hv) hrest hnumber
      · next hv =>
          have hnone := Option.not_isSome_iff_eq_none.mp hv
          obtain ⟨r, hr, hnumber⟩ := Option.bind_eq_some_iff.mp hnumber
          exact ih (hsep.search hnext hreaches h hsorted hnone hr) (h.search hsorted hnone hr) hrest
            hnumber

/-- The numbers tell the components exactly where the first node of each reaches all of it. -/
theorem separated_iff {fuel : Nat} (hall : ∀ v, v ∈ vs) (hsorted : vs.Pairwise (· < ·))
    (hnext : ∀ u, ∀ w ∈ next u, link u w)
    (hnumber : number next fuel vs 0 (fun _ => none) = some (count, label)) :
    Separated link label ↔ ReachesComponents next link := by
  have hinitial : Numbered next vs 0 fun _ => none := .initial hall
  have hfinal : Numbered next [] count label := hinitial.number hsorted hnumber
  have hsome (v : V) : (label v).isSome := (hfinal.earlier v).resolve_left List.not_mem_nil
  constructor
  · intro hsep root hleast v hv
    obtain ⟨k, hk⟩ := Option.isSome_iff_exists.mp (hsome v)
    obtain ⟨first, ⟨hfirst, hmin⟩, hreach⟩ := hfinal.first v k hk
    have hroot : label root = some k := ((hsep root v (hsome root)).mpr hv).trans hk
    have hlinked : Relation.EqvGen link root first :=
      (hsep root first (hsome root)).mp (hroot.trans hfirst.symm)
    rw [le_antisymm (hleast first hlinked) (hmin hroot)]
    exact hreach
  · intro hreaches
    have hsep : Separated link fun _ => none := fun _ _ h => by cases h
    exact hsep.number hnext hreaches hinitial hsorted hnumber

theorem reachesComponents_of_symm (hsymm : ∀ u w, link u w → link w u)
    (hnext : ∀ u w, link u w → w ∈ next u) : ReachesComponents next link := by
  have hreach : ∀ u w, Relation.EqvGen link u w →
      Relation.ReflTransGen (fun u w => w ∈ next u) u w ∧
        Relation.ReflTransGen (fun u w => w ∈ next u) w u := by
    intro u w h
    induction h with
    | rel u w h => exact ⟨.single (hnext u w h), .single (hnext w u (hsymm u w h))⟩
    | refl u => exact ⟨.refl, .refl⟩
    | symm u w _ ih => exact ih.symm
    | trans u w x _ _ ih ih' => exact ⟨ih.1.trans ih'.1, ih'.2.trans ih.2⟩
  exact fun root _ v hv => (hreach root v hv).1

end

end Flood

end CollectiveSim.Framework
