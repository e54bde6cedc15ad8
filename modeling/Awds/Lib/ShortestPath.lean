import Mathlib

/-!
# `Awds.Lib.ShortestPath`: walks, distances and hop-by-hop forwarding

A weighted directed graph is a relation `E u v c`, read as "there is an edge from `u` to
`v` of weight `c`". `Walk E u v c` is a walk of total weight `c` and `IsDist E u v d` says
that `d` is the smallest weight of a walk.

`Settling` is the invariant of a label-setting search (Dijkstra) from a source `s`. The
labels are natural numbers and a label of `inf` stands for "not reached". The invariant
carries the set `S` of settled vertices, their number `k`, and the set `D` of edges that
were relaxed. `Settling.settle` adds the nearest open vertex to `S`, and
`Settling.relax` relaxes one edge of the vertex settled last. Every edge weighs at
most `W`, so a finite label is at most `k * W`. This bound is what keeps the labels of a
search over fixed-width numbers away from `inf`.

After the search, `Settling.isDist` reads the labels as distances, and `FirstHop.split`
says what the first hop of a label tree is: the end of an edge that is the head of a
shortest walk.

`exists_route` is the forwarding law. Suppose every vertex sends a packet along the head
of some shortest walk to the destination, each with its own choice between ties. Then a
packet reaches the destination without visiting a vertex twice, and the weights on its way
add up to the distance.
-/

set_option autoImplicit false

namespace Awds.Lib

variable {V : Type}

/-- A walk from `u` to `v` of total weight `c`. -/
inductive Walk (E : V → V → Nat → Prop) : V → V → Nat → Prop where
  | nil (u : V) : Walk E u u 0
  | cons {u v w : V} {c d : Nat} : E u v c → Walk E v w d → Walk E u w (c + d)

/-- `d` is the smallest weight of a walk from `u` to `v`. -/
def IsDist (E : V → V → Nat → Prop) (u v : V) (d : Nat) : Prop :=
  Walk E u v d ∧ ∀ c, Walk E u v c → d ≤ c

section
variable {E : V → V → Nat → Prop}

/-- An edge at the end of a walk. -/
theorem Walk.snoc {u v w : V} {c d : Nat} (h : Walk E u v c) (he : E v w d) :
    Walk E u w (c + d) := by
  induction h with
  | nil u => simpa using Walk.cons he (Walk.nil w)
  | cons he' _ ih =>
    rw [Nat.add_assoc]
    exact Walk.cons he' (ih he)

/-- There is one distance at most. -/
theorem IsDist.unique {u v : V} {c d : Nat} (hc : IsDist E u v c) (hd : IsDist E u v d) :
    c = d :=
  Nat.le_antisymm (hc.2 d hd.1) (hd.2 c hc.1)

/-- Where there is a walk there is a shortest one. -/
theorem exists_isDist {u v : V} {c : Nat} (h : Walk E u v c) : ∃ d, IsDist E u v d := by
  classical
  have hex : ∃ c, Walk E u v c := ⟨c, h⟩
  exact ⟨Nat.find hex, Nat.find_spec hex, fun m hm => Nat.find_min' hex hm⟩

/-- Every node has the distance 0 from itself. -/
theorem isDist_self (u : V) : IsDist E u u 0 :=
  ⟨Walk.nil u, fun _ _ => Nat.zero_le _⟩

/-- The tail of a shortest walk is a shortest walk. -/
theorem IsDist.tail {u v w : V} {c d : Nat} (h : IsDist E u w (c + d)) (he : E u v c)
    (hw : Walk E v w d) : IsDist E v w d := by
  refine ⟨hw, fun m hm => ?_⟩
  have := h.2 _ (Walk.cons he hm)
  omega

end

/-! ### The label-setting search -/

/-- The search invariant. `dist` and `prev` are the labels, `S` the settled vertices,
`k` their number and `D` the relaxed edges.

- `source`: the source has the label 0;
- `tree`: a reached vertex got its label over an edge of a settled vertex;
- `relaxed`: a relaxed edge gives no better label;
- `frontier`: no open vertex is nearer than a settled one;
- `inS`: only edges of settled vertices were relaxed;
- `bounded`, `labelLe`, `settledLe`: the bounds on the labels. -/
structure Settling (E : V → V → Nat → Prop) (s : V) (inf W : Nat) (S : Set V) (k : Nat)
    (D : V → V → Nat → Prop) (dist : V → Nat) (prev : V → V) : Prop where
  source : dist s = 0
  tree : ∀ v, v ≠ s → dist v < inf →
    prev v ∈ S ∧ ∃ c, E (prev v) v c ∧ dist v = dist (prev v) + c
  relaxed : ∀ a v c, D a v c → dist a < inf → dist v ≤ dist a + c
  frontier : ∀ a ∈ S, ∀ b, b ∉ S → dist a ≤ dist b
  inS : ∀ a v c, D a v c → a ∈ S
  bounded : ∀ v, dist v ≤ inf
  labelLe : ∀ v, dist v < inf → dist v ≤ k * W
  settledLe : ∀ a ∈ S, dist a < inf → dist a + W ≤ k * W

section
variable {E : V → V → Nat → Prop} {s : V} {inf W k : Nat} {S : Set V}
  {D : V → V → Nat → Prop} {dist : V → Nat} {prev : V → V}

/-- The labels at the start of the search. -/
theorem Settling.init [DecidableEq V] (E : V → V → Nat → Prop) (s : V) (inf W : Nat)
    {dist : V → Nat} {prev : V → V} (hd : ∀ v, dist v = if v = s then 0 else inf) :
    Settling E s inf W ∅ 0 (fun _ _ _ => False) dist prev where
  source := by simp [hd]
  tree v hv h := by simp [hd, hv] at h
  relaxed _ _ _ h := h.elim
  frontier a ha := by simp at ha
  inS _ _ _ h := h.elim
  bounded v := by rw [hd]; split <;> omega
  labelLe v h := by
    rw [hd] at h ⊢
    split at h <;> simp_all
  settledLe a ha := by simp at ha

/-- Settling the nearest open vertex. -/
theorem Settling.settle (h : Settling E s inf W S k D dist prev) {u : V}
    (hmin : ∀ b, b ∉ S → dist u ≤ dist b) :
    Settling E s inf W (insert u S) (k + 1) D dist prev where
  source := h.source
  tree v hv hlt := by
    obtain ⟨hp, hc⟩ := h.tree v hv hlt
    exact ⟨Set.mem_insert_of_mem u hp, hc⟩
  relaxed := h.relaxed
  frontier a ha b hb := by
    have hb' : b ∉ S := fun hbS => hb (Set.mem_insert_of_mem u hbS)
    rcases Set.mem_insert_iff.mp ha with rfl | ha
    · exact hmin b hb'
    · exact h.frontier a ha b hb'
  inS a v c hd := Set.mem_insert_of_mem u (h.inS a v c hd)
  bounded := h.bounded
  labelLe v hlt := by
    have := h.labelLe v hlt
    rw [Nat.succ_mul]
    omega
  settledLe a _ hlt := by
    have := h.labelLe a hlt
    rw [Nat.succ_mul]
    omega

/-- Relaxing the edge `u → v` of the vertex settled last, where it improves the label of
`v`. Then `v` is open, because no settled label is above `dist u`. -/
theorem Settling.lower (h : Settling E s inf W S k D dist prev) {u v : V}
    {c : Nat} (hu : u ∈ S) (hlast : ∀ a ∈ S, dist a ≤ dist u) (he : E u v c)
    (hcW : c ≤ W) (hfin : dist u < inf) (hlt : dist u + c < dist v)
    {dist' : V → Nat} {prev' : V → V} (hv : dist' v = dist u + c ∧ prev' v = u)
    (hne : ∀ x, x ≠ v → dist' x = dist x ∧ prev' x = prev x) :
    Settling E s inf W S k (fun a x d => D a x d ∨ (a = u ∧ x = v ∧ d = c)) dist' prev' ∧
      ∀ a ∈ S, dist' a = dist a := by
  have hnew : dist u + c ≤ k * W := by
    have := h.settledLe u hu hfin
    omega
  -- A settled node is not `v`: its label is at most that of `u`, and that of `v` is above it.
  have hS : ∀ a ∈ S, dist' a = dist a := fun a ha => by
    have hav : a ≠ v := by
      rintro rfl
      have := hlast a ha
      omega
    exact (hne a hav).1
  have hle : ∀ x, dist' x ≤ dist x := fun x => by
    by_cases hxv : x = v
    · subst hxv
      rw [hv.1]
      exact hlt.le
    · rw [(hne x hxv).1]
  refine ⟨⟨?_, ?_, ?_, ?_, ?_, fun x => (hle x).trans (h.bounded x), ?_, ?_⟩, hS⟩
  · -- The label of the source is 0, so it is not the one that drops.
    have hs := h.source
    rw [(hne s (by rintro rfl; omega)).1, hs]
  · intro x hx hxlt
    by_cases hxv : x = v
    · subst hxv
      rw [hv.2]
      exact ⟨hu, c, he, by rw [hv.1, hS u hu]⟩
    · rw [(hne x hxv).1] at hxlt
      obtain ⟨hp, d, hd, heq⟩ := h.tree x hx hxlt
      rw [(hne x hxv).1, (hne x hxv).2, hS _ hp]
      exact ⟨hp, d, hd, heq⟩
  · rintro a x d (hD | ⟨rfl, rfl, rfl⟩) hfa
    · have ha := h.inS a x d hD
      rw [hS a ha] at hfa ⊢
      exact (hle x).trans (h.relaxed a x d hD hfa)
    · rw [hv.1, hS _ hu]
  · -- The new label of `v` is above `dist u`, so it stays above every settled one.
    intro a ha b hb
    rw [hS a ha]
    by_cases hbv : b = v
    · subst hbv
      have := hlast a ha
      rw [hv.1]
      omega
    · rw [(hne b hbv).1]
      exact h.frontier a ha b hb
  · rintro a x d (hD | ⟨rfl, -, -⟩)
    · exact h.inS a x d hD
    · exact hu
  · intro x hx
    by_cases hxv : x = v
    · subst hxv
      rw [hv.1]
      exact hnew
    · rw [(hne x hxv).1] at hx ⊢
      exact h.labelLe x hx
  · intro a ha hfa
    rw [hS a ha] at hfa ⊢
    exact h.settledLe a ha hfa

/-- An edge that improves no label is relaxed already. -/
theorem Settling.skip (h : Settling E s inf W S k D dist prev) {u v : V} {c : Nat}
    (hu : u ∈ S) (hge : ¬dist u + c < dist v) :
    Settling E s inf W S k (fun a x d => D a x d ∨ (a = u ∧ x = v ∧ d = c)) dist prev where
  source := h.source
  tree := h.tree
  relaxed := by
    rintro a x d (hD | ⟨rfl, rfl, rfl⟩) hfa
    · exact h.relaxed a x d hD hfa
    · omega
  frontier := h.frontier
  inS := by
    rintro a x d (hD | ⟨rfl, -, -⟩)
    · exact h.inS a x d hD
    · exact hu
  bounded := h.bounded
  labelLe := h.labelLe
  settledLe := h.settledLe

/-- Relaxing the edge `u → v` of the vertex settled last. The label of `v` becomes
`dist u + c` if that is smaller. `dist'` and `prev'` are the labels afterwards. -/
theorem Settling.relax [DecidableEq V] (h : Settling E s inf W S k D dist prev) {u v : V}
    {c : Nat} (hu : u ∈ S) (hlast : ∀ a ∈ S, dist a ≤ dist u) (he : E u v c)
    (hcW : c ≤ W) (hfin : dist u < inf) {dist' : V → Nat} {prev' : V → V}
    (hd' : ∀ x, dist' x = if x = v ∧ dist u + c < dist v then dist u + c else dist x)
    (hp' : ∀ x, prev' x = if x = v ∧ dist u + c < dist v then u else prev x) :
    Settling E s inf W S k (fun a x d => D a x d ∨ (a = u ∧ x = v ∧ d = c)) dist' prev' ∧
      dist' u = dist u ∧ ∀ a ∈ S, dist' a ≤ dist' u := by
  by_cases hlt : dist u + c < dist v
  · have hv : dist' v = dist u + c ∧ prev' v = u := by simp [hd', hp', hlt]
    have hne : ∀ x, x ≠ v → dist' x = dist x ∧ prev' x = prev x := fun x hx => by
      simp [hd', hp', hx]
    obtain ⟨h', hS⟩ := h.lower hu hlast he hcW hfin hlt hv hne
    refine ⟨h', hS u hu, fun a ha => ?_⟩
    rw [hS a ha, hS u hu]
    exact hlast a ha
  · have hdist : dist' = dist := by
      funext x
      simp [hd', hlt]
    have hprev : prev' = prev := by
      funext x
      simp [hp', hlt]
    subst hdist hprev
    exact ⟨h.skip hu hlt, rfl, hlast⟩

/-- The relaxed edges may be described in another way, as long as they are edges that
were relaxed. -/
theorem Settling.mono (h : Settling E s inf W S k D dist prev) {D' : V → V → Nat → Prop}
    (hD : ∀ a v c, D' a v c → D a v c ∨ (a ∈ S ∧ inf ≤ dist a)) :
    Settling E s inf W S k D' dist prev where
  source := h.source
  tree := h.tree
  relaxed a v c hd hlt := by
    rcases hD a v c hd with hd | ⟨-, hinf⟩
    · exact h.relaxed a v c hd hlt
    · omega
  frontier := h.frontier
  inS a v c hd := by
    rcases hD a v c hd with hd | ⟨ha, -⟩
    · exact h.inS a v c hd
    · exact ha
  bounded := h.bounded
  labelLe := h.labelLe
  settledLe := h.settledLe

/-- A finite label is the weight of a walk from the source. -/
theorem Settling.walk (h : Settling E s inf W S k D dist prev)
    (hpos : ∀ u v c, E u v c → 0 < c) :
    ∀ (n : Nat) (v : V), dist v = n → n < inf → Walk E s v n := by
  intro n
  induction n using Nat.strong_induction_on with
  | _ n ih =>
    intro v hv hn
    by_cases hvs : v = s
    · subst hvs
      have hz : n = 0 := by
        have := h.source
        omega
      subst hz
      exact Walk.nil v
    · obtain ⟨-, c, he, heq⟩ := h.tree v hvs (by omega)
      have hc := hpos _ _ _ he
      have hw := ih (dist (prev v)) (by omega) (prev v) rfl (by omega)
      have hsum : n = dist (prev v) + c := by omega
      rw [hsum]
      exact hw.snoc he

/-- After the search a reachable vertex has a finite label. -/
theorem Settling.reached (h : Settling E s inf W S k D dist prev)
    (hall : ∀ a v c, E a v c → D a v c) (hW : ∀ u v c, E u v c → c ≤ W) (hk : k * W < inf)
    {u v : V} {c : Nat} (hw : Walk E u v c) (hu : dist u < inf) : dist v < inf := by
  induction hw with
  | nil u => exact hu
  | cons he _ ih =>
    apply ih
    have hD := hall _ _ _ he
    have h1 := h.relaxed _ _ _ hD hu
    have h2 := h.settledLe _ (h.inS _ _ _ hD) hu
    have h3 := hW _ _ _ he
    omega

/-- After the search no walk from a reached vertex beats the label difference. -/
theorem Settling.le_walk (h : Settling E s inf W S k D dist prev)
    (hall : ∀ a v c, E a v c → D a v c) (hW : ∀ u v c, E u v c → c ≤ W) (hk : k * W < inf)
    {u v : V} {c : Nat} (hw : Walk E u v c) (hu : dist u < inf) : dist v ≤ dist u + c := by
  induction hw with
  | nil u => omega
  | cons he hw ih =>
    have h1 := h.relaxed _ _ _ (hall _ _ _ he) hu
    have h2 := h.reached hall hW hk (Walk.cons he (Walk.nil _)) hu
    have := ih h2
    omega

/-- The finite labels are the distances from the source. -/
theorem Settling.isDist (h : Settling E s inf W S k D dist prev)
    (hpos : ∀ u v c, E u v c → 0 < c) (hall : ∀ a v c, E a v c → D a v c)
    (hW : ∀ u v c, E u v c → c ≤ W) (hk : k * W < inf) {v : V} (hv : dist v < inf) :
    IsDist E s v (dist v) := by
  refine ⟨h.walk hpos _ v rfl hv, fun c hc => ?_⟩
  have hs : dist s < inf := by
    have := h.source
    omega
  have := h.le_walk hall hW hk hc hs
  have := h.source
  omega

end

/-! ### First hops -/

/-- `x` is the first vertex behind `s` on the chain of predecessors that ends in `v`. -/
inductive FirstHop (s : V) (prev : V → V) : V → V → Prop where
  | here {v : V} : prev v = s → FirstHop s prev v v
  | there {v x : V} : prev v ≠ s → FirstHop s prev (prev v) x → FirstHop s prev v x

/-- A vertex has one first hop. -/
theorem FirstHop.unique {s : V} {prev : V → V} {v x y : V} (hx : FirstHop s prev v x)
    (hy : FirstHop s prev v y) : x = y := by
  induction hx with
  | here hp =>
    cases hy with
    | here _ => rfl
    | there hp' _ => exact absurd hp hp'
  | there hp _ ih =>
    cases hy with
    | here hp' => exact absurd hp' hp
    | there _ h => exact ih h

/-- The first hop of a label tree is the end of an edge of the source, and the rest of
the label is the weight of a walk from there. -/
theorem FirstHop.split {E : V → V → Nat → Prop} {s : V} {inf W k : Nat} {S : Set V}
    {D : V → V → Nat → Prop} {dist : V → Nat} {prev : V → V}
    (h : Settling E s inf W S k D dist prev) {v x : V} (hx : FirstHop s prev v x)
    (hv : v ≠ s) (hlt : dist v < inf) :
    x ≠ s ∧ ∃ c d, E s x c ∧ Walk E x v d ∧ dist v = c + d := by
  induction hx with
  | @here v hp =>
    obtain ⟨-, c, he, heq⟩ := h.tree v hv hlt
    rw [hp, h.source] at heq
    rw [hp] at he
    exact ⟨hv, c, 0, he, Walk.nil v, by omega⟩
  | @there v x hp _ ih =>
    obtain ⟨-, c', he', heq⟩ := h.tree v hv hlt
    obtain ⟨hxs, c, d, he, hw, hcd⟩ := ih hp (by omega)
    exact ⟨hxs, c, d + c', he, hw.snoc he', by omega⟩

/-! ### Forwarding -/

/-- The way of a packet for `d` when every vertex `u` on it passes it to `next u`: the
visited vertices in order and the total weight. -/
inductive Route (E : V → V → Nat → Prop) (next : V → Option V) (d : V) :
    V → List V → Nat → Prop where
  | arrived : Route E next d d [d] 0
  | hop {u v : V} {path : List V} {c total : Nat} : u ≠ d → next u = some v → E u v c →
      Route E next d v path total → Route E next d u (u :: path) (c + total)

/-- The forwarding law. Every vertex passes the packet along the head of a shortest walk
to `d`. Then a packet that starts at distance `n` has a way to `d` of weight `n`, and the
vertices on it are pairwise different. The distance to `d` drops with every hop, which is
why no vertex is visited twice. -/
theorem exists_route {E : V → V → Nat → Prop} (next : V → Option V) {d : V}
    (hpos : ∀ u v c, E u v c → 0 < c)
    (hnext : ∀ u n, u ≠ d → IsDist E u d n →
      ∃ v c m, next u = some v ∧ E u v c ∧ IsDist E v d m ∧ n = c + m) :
    ∀ (n : Nat) (u : V), IsDist E u d n →
      ∃ path, Route E next d u path n ∧ path.Nodup ∧
        ∀ v ∈ path, ∃ m, m ≤ n ∧ IsDist E v d m := by
  intro n
  induction n using Nat.strong_induction_on with
  | _ n ih =>
    -- The induction is on the distance: the next hop is nearer, since the weights are positive.
    intro u hu
    by_cases hud : u = d
    · subst hud
      have hz : n = 0 := hu.unique (isDist_self u)
      subst hz
      exact ⟨[u], .arrived, by simp, fun v hv => ⟨0, le_rfl, by simp_all⟩⟩
    · obtain ⟨v, c, m, hn, he, hm, rfl⟩ := hnext u n hud hu
      have hc := hpos _ _ _ he
      obtain ⟨path, hr, hnd, hdist⟩ := ih m (by omega) v hm
      refine ⟨u :: path, .hop hud hn he hr, List.nodup_cons.mpr ⟨fun hmem => ?_, hnd⟩, ?_⟩
      · -- A node that came again would have two distances.
        obtain ⟨m', hm', hd'⟩ := hdist u hmem
        have := hu.unique hd'
        omega
      · intro x hx
        rcases List.mem_cons.mp hx with rfl | hx
        · exact ⟨c + m, le_rfl, hu⟩
        · obtain ⟨m', hm', hd'⟩ := hdist x hx
          exact ⟨m', by omega, hd'⟩

end Awds.Lib
