import Mathlib.Algebra.Group.Int.Defs
import Voce.Foundation.FiniteMap
import Mathlib.Data.Set.Finite.Basic

/-! # Kahn's algorithm on a multigraph

Nodes are placed one after the other. Every node counts its incoming edges whose
source is not placed yet, and joins the queue when the count gets to zero. When the
queue is empty, a node that is left has a predecessor that is left too, so it lies
behind a cycle.
-/

namespace Voce.TopologicalSort

open List

variable {α : Type}

/-! ## Predecessors -/

/-- The sources of the edges to a node come before it. -/
def Ordered (edges : List (α × α)) (placed : List α) : Prop :=
  ∀ before v after, placed = before ++ v :: after → ∀ u, (u, v) ∈ edges → u ∈ before

theorem Ordered.nil (edges : List (α × α)) : Ordered edges [] := by
  intro before v after heq
  simp at heq

variable {edges : List (α × α)} {placed : List α} {v : α}

theorem Ordered.snoc (hordered : Ordered edges placed) (hv : ∀ u, (u, v) ∈ edges → u ∈ placed) :
    Ordered edges (placed ++ [v]) := by
  intro before w after heq u hu
  induction after using reverseRecOn with
  | nil =>
    obtain ⟨rfl, hlast⟩ := append_inj' heq rfl
    obtain rfl : v = w := by simpa using hlast
    exact hv u hu
  | append_singleton after last _ =>
    have hsplit : placed ++ [v] = (before ++ w :: after) ++ [last] := by simpa using heq
    exact hordered before w after (append_inj' hsplit rfl).1 u hu

/-- If every node has a predecessor among the nodes, all of them lie behind cycles. -/
theorem exists_cycle_behind {follows : α → α → Prop} {nodes : List α}
    (hpred : ∀ v ∈ nodes, ∃ u ∈ nodes, follows u v) (hv : v ∈ nodes) :
    ∃ c, Relation.TransGen follows c c ∧ Relation.ReflTransGen follows c v := by
  by_contra hnone
  simp only [not_exists, not_and] at hnone
  -- the nodes that lead to `v` have no cycle, so going back from `v` comes to an end
  let leads : {u // u ∈ nodes} → {u // u ∈ nodes} → Prop := fun a b =>
    Relation.TransGen follows a b ∧ Relation.ReflTransGen follows b v
  have htrans : IsTrans _ leads := ⟨fun _ _ _ hab hbc => ⟨hab.1.trans hbc.1, hbc.2⟩⟩
  have hirrefl : Std.Irrefl leads := ⟨fun a ha => hnone a ha.1 ha.2⟩
  have hfinite : Finite {u // u ∈ nodes} := nodes.finite_toSet
  have hwf : WellFounded leads := Finite.wellFounded_of_trans_of_irrefl leads
  have hend : ∀ a : {u // u ∈ nodes}, ¬ Relation.ReflTransGen follows a v := by
    intro a
    induction a using hwf.induction with
    | h a ih =>
      intro ha
      obtain ⟨u, hu, hfollows⟩ := hpred a a.2
      exact ih ⟨u, hu⟩ ⟨.single hfollows, ha⟩ (ha.head hfollows)
  exact hend ⟨v, hv⟩ .refl

variable [DecidableEq α]

def remaining (edges : List (α × α)) (placed : List α) (v : α) : Nat :=
  edges.countP fun edge => edge.2 = v ∧ edge.1 ∉ placed

def targets (edges : List (α × α)) (u : α) : List α :=
  (edges.filter fun edge => edge.1 = u).map Prod.snd

theorem mem_targets {u v} : v ∈ targets edges u ↔ (u, v) ∈ edges := by
  simp [targets]

theorem remaining_cons (edge : α × α) (rest : List (α × α)) (placed : List α) (v : α) :
    remaining (edge :: rest) placed v =
      remaining rest placed v + if edge.2 = v ∧ edge.1 ∉ placed then 1 else 0 := by
  simp [remaining, countP_cons]

theorem count_targets_cons (edge : α × α) (rest : List (α × α)) (u v : α) :
    (targets (edge :: rest) u).count v =
      (targets rest u).count v + if edge.2 = v ∧ edge.1 = u then 1 else 0 := by
  by_cases hsource : edge.1 = u
  · simp [targets, hsource, count_cons]
  · simp [targets, hsource]

theorem remaining_nil (edges : List (α × α)) (v : α) :
    remaining edges [] v = (edges.map Prod.snd).count v := by
  induction edges with
  | nil => rfl
  | cons edge rest ih => simp [remaining_cons, ih, count_cons]

/-- Placing a node takes the edges from it away. -/
theorem remaining_snoc (edges : List (α × α)) {u} (hu : u ∉ placed) (v : α) :
    remaining edges (placed ++ [u]) v + (targets edges u).count v = remaining edges placed v := by
  induction edges with
  | nil => rfl
  | cons edge rest ih =>
    have hsplit : (if edge.2 = v ∧ edge.1 ∉ placed ++ [u] then 1 else 0) +
        (if edge.2 = v ∧ edge.1 = u then 1 else 0) =
        if edge.2 = v ∧ edge.1 ∉ placed then 1 else 0 := by
      by_cases hsource : edge.1 = u
      · simp [hsource, hu]
      · simp [hsource]
    rw [remaining_cons, remaining_cons, count_targets_cons]
    omega

theorem mem_placed_of_remaining_eq_zero {u v} (hzero : remaining edges placed v = 0)
    (hu : (u, v) ∈ edges) : u ∈ placed := by
  by_contra hnot
  have hnone := countP_eq_zero.mp hzero (u, v) hu
  simp [hnot] at hnone

theorem exists_of_remaining_pos (hpos : 0 < remaining edges placed v) :
    ∃ u, (u, v) ∈ edges ∧ u ∉ placed := by
  obtain ⟨⟨u, w⟩, hmem, hedge⟩ := countP_pos_iff.mp hpos
  obtain ⟨rfl, hu⟩ : w = v ∧ u ∉ placed := by simpa using hedge
  exact ⟨u, hmem, hu⟩

/-! ## The algorithm -/

/-- The counts of incoming edges, the nodes that wait to be placed and the placed ones. -/
structure State (α : Type) where
  degree : AList fun _ : α => Int
  queue : List α
  placed : List α

namespace State

/-- A missing entry counts as zero. -/
def count (s : State α) (v : α) : Int := (s.degree.lookup v).getD 0

/-- One edge to the node is out of the way. -/
def relax (s : State α) (v : α) : State α :=
  let count := s.count v - 1
  { s with
    degree := s.degree.insert v count
    queue := if count = 0 then s.queue ++ [v] else s.queue }

def place (adj : α → List α) (s : State α) : State α :=
  match s.queue with
  | [] => s
  | u :: rest => (adj u).foldl relax { s with queue := rest, placed := s.placed ++ [u] }

def run (adj : α → List α) : Nat → State α → State α
  | 0, s => s
  | fuel + 1, s => run adj fuel (s.place adj)

variable (s : State α)

theorem relax_count (v w : α) : (s.relax v).count w = s.count w - if w = v then 1 else 0 := by
  by_cases hw : w = v
  · subst hw
    simp [relax, count]
  · simp [relax, count, hw]

theorem relaxAll_placed (vs : List α) : (vs.foldl relax s).placed = s.placed := by
  induction vs generalizing s with
  | nil => rfl
  | cons v vs ih => exact ih (s.relax v)

theorem relaxAll_count (vs : List α) (w : α) :
    (vs.foldl relax s).count w = s.count w - vs.count w := by
  induction vs generalizing s with
  | nil => simp
  | cons v vs ih =>
    rw [foldl_cons, ih, relax_count, count_cons]
    by_cases hw : w = v
    · subst hw
      simp
      omega
    · simp [hw, Ne.symm hw]

theorem mem_relaxAll_degree {vs : List α} (hvs : ∀ v ∈ vs, v ∈ s.degree) (w : α) :
    w ∈ (vs.foldl relax s).degree ↔ w ∈ s.degree := by
  induction vs generalizing s with
  | nil => rfl
  | cons v vs ih =>
    have hrelax : ∀ x, x ∈ (s.relax v).degree ↔ x ∈ s.degree := by
      intro x
      rw [relax, AList.mem_insert]
      constructor
      · rintro (rfl | hx)
        · exact hvs _ mem_cons_self
        · exact hx
      · exact .inr
    rw [foldl_cons, ih, hrelax]
    intro x hx
    exact (hrelax x).mpr (hvs x (mem_cons_of_mem _ hx))

/-- The nodes whose last edge is taken away join the queue, each of them once. -/
theorem relaxAll_queue {vs : List α} (hle : ∀ v, (vs.count v : Int) ≤ s.count v) :
    ∃ freed, (vs.foldl relax s).queue = s.queue ++ freed ∧ freed.Nodup ∧
      ∀ v, v ∈ freed ↔ v ∈ vs ∧ s.count v = vs.count v := by
  induction vs generalizing s with
  | nil => exact ⟨[], by simp, nodup_nil, by simp⟩
  | cons v vs ih =>
    have hcount := relax_count s v
    obtain ⟨freed, hqueue, hnodup, hfreed⟩ := ih (s.relax v) (by
      intro w
      have hw := hle w
      rw [hcount]
      by_cases heq : w = v
      · subst heq
        simp at hw ⊢
        omega
      · simpa [heq, Ne.symm heq] using hw)
    have hv := hle v
    rw [count_cons_self] at hv
    refine ⟨(if s.count v - 1 = 0 then [v] else []) ++ freed, ?_, ?_, ?_⟩
    · rw [foldl_cons, hqueue]
      simp only [relax]
      split <;> simp
    · split
      · refine nodup_cons.mpr ⟨?_, hnodup⟩
        intro hmem
        have hpos : 0 < vs.count v := count_pos_iff.mpr ((hfreed v).mp hmem).1
        omega
      · exact hnodup
    · intro w
      rw [mem_append, hfreed, hcount]
      by_cases heq : w = v
      · subst heq
        rw [count_cons_self]
        simp only [mem_cons, true_or, true_and, if_true]
        constructor
        · rintro (hmem | ⟨-, hlast⟩)
          · split at hmem
            · omega
            · simp at hmem
          · omega
        · intro hlast
          by_cases hmore : w ∈ vs
          · exact .inr ⟨hmore, by omega⟩
          · have hnone : vs.count w = 0 := count_eq_zero.mpr hmore
            rw [if_pos (by omega)]
            exact .inl mem_cons_self
      · rw [count_cons_of_ne (Ne.symm heq)]
        simp [heq]

structure Placing (vs : List α) (u : α) (rest : List α) (s t : State α) : Prop where
  placed : t.placed = s.placed ++ [u]
  count : ∀ v, t.count v = s.count v - vs.count v
  degree : ∀ v, v ∈ t.degree ↔ v ∈ s.degree
  queue : ∃ freed, t.queue = rest ++ freed ∧ freed.Nodup ∧
    ∀ v, v ∈ freed ↔ v ∈ vs ∧ s.count v = vs.count v

theorem place_placing {adj} {s : State α} {u rest} (hqueue : s.queue = u :: rest)
    (hknown : ∀ v ∈ adj u, v ∈ s.degree) (hle : ∀ v, ((adj u).count v : Int) ≤ s.count v) :
    Placing (adj u) u rest s (s.place adj) := by
  simp only [place, hqueue]
  exact
    { placed := relaxAll_placed _ _
      count := relaxAll_count _ _
      degree := mem_relaxAll_degree _ hknown
      queue := relaxAll_queue _ hle }

/-! ## What the loop keeps -/

/-- The counts are the numbers of edges from nodes that are not placed, and the nodes
without such edges are placed or wait to be. -/
structure Invariant (edges : List (α × α)) (s : State α) : Prop where
  nodup : (s.placed ++ s.queue).Nodup
  counted : ∀ v, s.count v = remaining edges s.placed v
  free : ∀ v, v ∈ s.placed ++ s.queue ↔ v ∈ s.degree ∧ s.count v = 0
  known : ∀ u v, (u, v) ∈ edges → v ∈ s.degree
  ordered : Ordered edges s.placed

variable {edges : List (α × α)} {s : State α} {u : α} {rest : List α} {v : α}
  (hs : Invariant edges s)
include hs

/-- The edges to a node that waits come from placed nodes. -/
theorem Invariant.mem_placed (hv : v ∈ s.queue) (hu : (u, v) ∈ edges) : u ∈ s.placed := by
  apply mem_placed_of_remaining_eq_zero _ hu
  have hcount := hs.counted v
  have hzero := ((hs.free v).mp (mem_append_right _ hv)).2
  omega

theorem Invariant.placing (hqueue : s.queue = u :: rest) :
    u ∉ s.placed ∧ Placing (targets edges u) u rest s (s.place (targets edges)) := by
  have hu : u ∉ s.placed := by
    intro hmem
    refine disjoint_of_nodup_append hs.nodup hmem ?_
    rw [hqueue]
    exact mem_cons_self
  refine ⟨hu, place_placing hqueue ?_ ?_⟩
  · intro v hv
    exact hs.known u v (mem_targets.mp hv)
  · intro v
    have hsplit := remaining_snoc edges hu v
    rw [hs.counted]
    omega

theorem Invariant.place_cons (hqueue : s.queue = u :: rest) :
    Invariant edges (s.place (targets edges)) := by
  obtain ⟨hu, hplacing⟩ := hs.placing hqueue
  obtain ⟨freed, hfreed, hnodup, hmem⟩ := hplacing.queue
  have hold := hs.nodup
  have hfree := hs.free
  rw [hqueue] at hold hfree
  have hall : (s.place (targets edges)).placed ++ (s.place (targets edges)).queue =
      (s.placed ++ u :: rest) ++ freed := by
    simp [hplacing.placed, hfreed]
  refine ⟨?_, ?_, ?_, ?_, ?_⟩
  · rw [hall, nodup_append]
    refine ⟨hold, hnodup, ?_⟩
    rintro v hv w hw rfl
    -- a freed node had an edge left, so it was neither placed nor waiting
    obtain ⟨hedge, hlast⟩ := (hmem v).mp hw
    have hpos : 0 < (targets edges u).count v := count_pos_iff.mpr hedge
    have hzero := ((hfree v).mp hv).2
    omega
  · intro v
    have hsplit := remaining_snoc edges hu v
    rw [hplacing.count, hplacing.placed, hs.counted]
    omega
  · intro v
    rw [hall, mem_append, hfree, hmem, hplacing.degree, hplacing.count]
    by_cases hedge : v ∈ targets edges u
    · have hknown : v ∈ s.degree := hs.known u v (mem_targets.mp hedge)
      have hsplit := remaining_snoc edges hu v
      have hcounted := hs.counted v
      simp only [hedge, hknown, true_and]
      omega
    · have hnone : (targets edges u).count v = 0 := count_eq_zero.mpr hedge
      simp [hedge, hnone]
  · intro x v hedge
    rw [hplacing.degree]
    exact hs.known x v hedge
  · rw [hplacing.placed]
    refine hs.ordered.snoc fun x hx => ?_
    exact hs.mem_placed (by rw [hqueue]; exact mem_cons_self) hx

theorem Invariant.place : Invariant edges (s.place (targets edges)) := by
  cases hqueue : s.queue with
  | nil =>
    rw [State.place, hqueue]
    exact hs
  | cons u rest => exact hs.place_cons hqueue

theorem Invariant.run (fuel : Nat) : Invariant edges (s.run (targets edges) fuel) := by
  induction fuel generalizing s with
  | zero => exact hs
  | succ fuel ih => exact ih hs.place

theorem Invariant.mem_degree_run (fuel : Nat) (v : α) :
    v ∈ (s.run (targets edges) fuel).degree ↔ v ∈ s.degree := by
  induction fuel generalizing s with
  | zero => rfl
  | succ fuel ih =>
    rw [State.run, ih hs.place]
    cases hqueue : s.queue with
    | nil => rw [State.place, hqueue]
    | cons u rest => exact (hs.placing hqueue).2.degree v

omit hs in
theorem run_of_queue_nil {adj} (hqueue : s.queue = []) (fuel : Nat) : s.run adj fuel = s := by
  induction fuel with
  | zero => rfl
  | succ fuel ih =>
    have hplace : s.place adj = s := by rw [State.place, hqueue]
    rw [State.run, hplace, ih]

/-- Every round places a node, until the queue is empty. -/
theorem Invariant.run_progress (fuel : Nat) : (s.run (targets edges) fuel).queue = [] ∨
      (s.run (targets edges) fuel).placed.length = s.placed.length + fuel := by
  induction fuel generalizing s with
  | zero => exact .inr rfl
  | succ fuel ih =>
    cases hqueue : s.queue with
    | nil =>
      left
      rw [run_of_queue_nil hqueue, hqueue]
    | cons u rest =>
      rcases ih hs.place with hempty | hlength
      · exact .inl hempty
      · rw [State.run, hlength, (hs.placing hqueue).2.placed, length_append, length_singleton]
        omega

/-- One round for each node is enough. -/
theorem Invariant.run_queue {fuel} (hfuel : s.degree.keys.length ≤ fuel) :
    (s.run (targets edges) fuel).queue = [] := by
  rcases hs.run_progress fuel with hempty | hlength
  · exact hempty
  · have hfinal := hs.run fuel
    have hsub : (s.run (targets edges) fuel).placed ++ (s.run (targets edges) fuel).queue ⊆
        s.degree.keys := by
      intro v hv
      rw [← AList.mem_keys, ← hs.mem_degree_run fuel]
      exact ((hfinal.free v).mp hv).1
    have hbound := (hfinal.nodup.subperm hsub).length_le
    rw [length_append] at hbound
    exact eq_nil_of_length_eq_zero (by omega)

/-- With an empty queue, the nodes with a positive count are those that are not placed. -/
theorem Invariant.count_pos_iff (hempty : s.queue = []) (hv : v ∈ s.degree) :
    s.count v > 0 ↔ v ∉ s.placed := by
  have hfree := hs.free v
  have hcounted := hs.counted v
  rw [hempty, append_nil] at hfree
  rw [hfree]
  simp only [hv, true_and]
  omega

/-- With an empty queue, a node that is not placed lies behind a cycle. -/
theorem Invariant.exists_cycle (hempty : s.queue = [])
    (hsources : ∀ u v, (u, v) ∈ edges → u ∈ s.degree) (hv : v ∈ s.degree) (hnot : v ∉ s.placed) :
    ∃ c, Relation.TransGen (fun u v => (u, v) ∈ edges) c c ∧
      Relation.ReflTransGen (fun u v => (u, v) ∈ edges) c v := by
  have hmem : ∀ v, v ∈ s.degree.keys.filter (· ∉ s.placed) ↔ v ∈ s.degree ∧ v ∉ s.placed := by
    simp [AList.mem_keys]
  refine exists_cycle_behind ?_ ((hmem v).mpr ⟨hv, hnot⟩)
  intro w hw
  obtain ⟨hdegree, hleft⟩ := (hmem w).mp hw
  have hpos := (hs.count_pos_iff hempty hdegree).mpr hleft
  rw [hs.counted] at hpos
  obtain ⟨u, hedge, hu⟩ := exists_of_remaining_pos (by omega : 0 < remaining edges s.placed w)
  exact ⟨u, (hmem u).mpr ⟨hsources u w hedge, hu⟩, hedge⟩

end State

end Voce.TopologicalSort
