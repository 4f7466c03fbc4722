import Mathlib.Order.WellFoundedSet
import Mathlib.Data.List.Perm.Basic
import Mathlib.Data.List.Nodup
import Mathlib.Data.List.Chain

/-!
# Finite digraphs — acyclicity, successor-closed sets and layerings

General facts about a relation `r` read as the edges of a digraph. Nothing
here knows what the vertices are.

* `Acyclic` — no vertex reaches itself.
* `ClosedAcyclic` — a set that contains all successors of its members and
  meets no cycle; it grows by vertices all of whose successors it already
  contains (`ClosedAcyclic.insert`). This is the invariant of the finished
  vertices of a depth-first search.
* `IsClosedWalk` — a walk along edges that ends where it began; a digraph with one
  is not acyclic (`IsClosedWalk.not_acyclic`), and a walk with an edge back into
  it contains one (`IsClosedWalk.of_back_edge`).
* `Acyclic.addEdge` — a new edge whose end does not reach its start keeps a
  digraph acyclic.
* `Acyclic.exists_source` — in an acyclic digraph every nonempty finite set
  has a member without a predecessor in the set.
* `Acyclic.exists_root`, `Acyclic.exists_sink` — every vertex of a finite closed
  set is reached from one without predecessors and reaches one without successors.
* `Depth`, `Earlier` — how long the paths to a vertex are; a vertex is earlier than
  all it has a path to (`Acyclic.earlier`).
* `IsLayering` — a sequence of layers that peels all sources off the
  remaining vertices again and again; it lists every vertex exactly once
  (`IsLayering.flatten_perm`) and no vertex before its predecessors
  (`IsLayering.preds_earlier`).
-/

namespace Lib.Digraph

open Relation

variable {α : Type*} {r : α → α → Prop}

/-- No vertex reaches itself by one or more edges. -/
def Acyclic (r : α → α → Prop) : Prop := ∀ x, ¬ TransGen r x x

/-! ## Successor-closed sets -/

/-- A set of vertices that is closed under successors and meets no cycle. -/
structure ClosedAcyclic (r : α → α → Prop) (s : Set α) : Prop where
  closed  : ∀ ⦃x y⦄, x ∈ s → r x y → y ∈ s
  noCycle : ∀ ⦃x⦄, x ∈ s → ¬ TransGen r x x

theorem ClosedAcyclic.empty : ClosedAcyclic r (∅ : Set α) :=
  ⟨fun _ _ hx => hx.elim, fun _ hx => hx.elim⟩

variable {s : Set α} {x y : α}

/-- A path that starts in a successor-closed set stays in it. -/
theorem ClosedAcyclic.mem_of_transGen (hs : ClosedAcyclic r s) (hx : x ∈ s) (hxy : TransGen r x y) :
    y ∈ s := by
  induction hxy with
  | single h => exact hs.closed hx h
  | tail _ h ih => exact hs.closed ih h

/-- Adding a vertex whose successors are all in the set keeps the set closed
and free of cycles: a path from the new vertex enters the set at once and
never leaves it again. -/
theorem ClosedAcyclic.insert (hs : ClosedAcyclic r s) {n : α} (hn : n ∉ s)
    (hsucc : ∀ y, r n y → y ∈ s) : ClosedAcyclic r (insert n s) := by
  refine ⟨?_, ?_⟩
  · rintro x y (rfl | hx) hxy
    · exact Or.inr (hsucc y hxy)
    · exact Or.inr (hs.closed hx hxy)
  · rintro x (rfl | hx) hcycle
    · obtain ⟨y, hxy, hyx⟩ := TransGen.head'_iff.mp hcycle
      rcases reflTransGen_iff_eq_or_transGen.mp hyx with rfl | hyx
      · exact hn (hsucc _ hxy)
      · exact hn (hs.mem_of_transGen (hsucc y hxy) hyx)
    · exact hs.noCycle hx hcycle

/-! ## Closed walks -/

/-- A walk of at least one edge that ends where it began. -/
structure IsClosedWalk (r : α → α → Prop) (c : List α) : Prop where
  two_le : 2 ≤ c.length
  ends   : c.head? = c.getLast?
  chain  : c.IsChain r

theorem IsClosedWalk.not_acyclic {c : List α} (h : IsClosedWalk r c) : ¬ Acyclic r := by
  obtain ⟨htwo, hends, hchain⟩ := h
  rcases c with _ | ⟨x, _ | ⟨y, l⟩⟩
  · simp at htwo
  · simp at htwo
  · intro hacyclic
    have hlast : x ∈ y :: l := by
      rw [List.getLast?_cons_cons, List.head?_cons] at hends
      exact List.mem_of_getLast? hends.symm
    have htrans : (x :: y :: l).IsChain (TransGen r) := hchain.imp fun _ _ => .single
    exact hacyclic x (htrans.rel_cons hlast)

/-- An edge from the end of a walk back into it closes the part between. -/
theorem IsClosedWalk.of_back_edge [DecidableEq α] {walk : List α} {last next : α}
    (hchain : walk.IsChain r) (hlast : walk.getLast? = some last) (hedge : r last next)
    (hnext : next ∈ walk) :
    IsClosedWalk r (walk.dropWhile (fun p => p ≠ next) ++ [next]) := by
  obtain ⟨before, after, rfl, hbefore⟩ := List.eq_append_cons_of_mem hnext
  have hdrop : (before ++ next :: after).dropWhile (fun p => p ≠ next) = next :: after := by
    rw [List.dropWhile_append_of_pos, List.dropWhile_cons_of_neg]
    · simp
    · intro p hp
      simp only [ne_eq, decide_not, Bool.not_eq_eq_eq_not, Bool.not_true, decide_eq_false_iff_not]
      rintro rfl
      exact hbefore hp
  rw [hdrop]
  refine ⟨by simp, by rw [List.getLast?_concat]; rfl, ?_⟩
  refine List.isChain_append.mpr ⟨(List.isChain_append.mp hchain).2.1, .singleton next, ?_⟩
  intro x hx y hy
  rw [List.getLast?_append_cons] at hlast
  obtain rfl : last = x := Option.some.inj (hlast.symm.trans hx)
  obtain rfl : next = y := by simpa using hy
  exact hedge

/-! ## Adding an edge -/

theorem Acyclic.mono {r' : α → α → Prop} (hr : Acyclic r) (hsub : ∀ x y, r' x y → r x y) :
    Acyclic r' :=
  fun x hx => hr x (TransGen.mono hsub x x hx)

variable {r' : α → α → Prop} {a b : α}

/-- A path in a digraph with one edge more avoids the new edge or runs through
it. -/
theorem transGen_addEdge (hsub : ∀ x y, r' x y → r x y ∨ (x = a ∧ y = b)) (hxy : TransGen r' x y) :
    TransGen r x y ∨ (ReflTransGen r x a ∧ ReflTransGen r b y) := by
  induction hxy with
  | single h =>
    rcases hsub _ _ h with h | ⟨rfl, rfl⟩
    · exact Or.inl (.single h)
    · exact Or.inr ⟨.refl, .refl⟩
  | tail _ h ih =>
    rcases hsub _ _ h with h | ⟨rfl, rfl⟩
    · rcases ih with ih | ⟨hxa, hby⟩
      · exact Or.inl (ih.tail h)
      · exact Or.inr ⟨hxa, hby.tail h⟩
    · rcases ih with ih | ⟨hxa, -⟩
      · exact Or.inr ⟨ih.to_reflTransGen, .refl⟩
      · exact Or.inr ⟨hxa, .refl⟩

/-- A new edge closes a cycle only if its end already reaches its start. -/
theorem Acyclic.addEdge (hr : Acyclic r) (hsub : ∀ x y, r' x y → r x y ∨ (x = a ∧ y = b))
    (hba : ¬ ReflTransGen r b a) : Acyclic r' := by
  intro x hx
  rcases transGen_addEdge hsub hx with hcycle | ⟨hxa, hbx⟩
  · exact hr x hcycle
  · exact hba (hbx.trans hxa)

/-! ## Sources -/

/-- In an acyclic digraph a nonempty finite set has a member without a
predecessor in the set. -/
theorem Acyclic.exists_source (hr : Acyclic r) (hfin : s.Finite) (hne : s.Nonempty) :
    ∃ x ∈ s, ∀ y ∈ s, ¬ r y x := by
  have : IsStrictOrder α (TransGen r) :=
    { irrefl := hr, trans := fun _ _ _ => TransGen.trans }
  have hwf : s.WellFoundedOn (TransGen r) := hfin.wellFoundedOn
  obtain ⟨x₀, hx₀⟩ := hne
  obtain ⟨⟨x, hx⟩, -, hmin⟩ := hwf.has_min Set.univ ⟨⟨x₀, hx₀⟩, trivial⟩
  exact ⟨x, hx, fun y hy hyx => hmin ⟨y, hy⟩ trivial (TransGen.single hyx)⟩

/-- In an acyclic digraph every member of a finite set without predecessors outside
is reached from a member without predecessors. -/
theorem Acyclic.exists_root (hr : Acyclic r) (hfin : s.Finite)
    (hclosed : ∀ x ∈ s, ∀ y, r y x → y ∈ s) (hx : x ∈ s) :
    ∃ y ∈ s, (∀ z, ¬ r z y) ∧ ReflTransGen r y x := by
  have hsub : {y ∈ s | ReflTransGen r y x} ⊆ s := Set.sep_subset _ _
  obtain ⟨y, ⟨hy, hyx⟩, hsource⟩ := hr.exists_source (hfin.subset hsub) ⟨x, hx, .refl⟩
  refine ⟨y, hy, fun z hzy => ?_, hyx⟩
  exact hsource z ⟨hclosed y hy z hzy, hyx.head hzy⟩ hzy

/-- The same against the edges. -/
theorem Acyclic.exists_sink (hr : Acyclic r) (hfin : s.Finite)
    (hclosed : ∀ x ∈ s, ∀ y, r x y → y ∈ s) (hx : x ∈ s) :
    ∃ y ∈ s, (∀ z, ¬ r y z) ∧ ReflTransGen r x y := by
  have hswap : Acyclic (Function.swap r) := fun x hx => hr x (transGen_swap.mp hx)
  obtain ⟨y, hy, hsink, hpath⟩ := hswap.exists_root hfin hclosed hx
  exact ⟨y, hy, hsink, reflTransGen_swap.mp hpath⟩

/-! ## Depths -/

/-- A path of this many edges leads to the vertex. -/
inductive Depth (r : α → α → Prop) : Nat → α → Prop
  | zero (x : α) : Depth r 0 x
  | succ {n : Nat} {x y : α} : Depth r n y → r y x → Depth r (n + 1) x

/-- A path to `x` is longer than every path to `y`. -/
def Earlier (r : α → α → Prop) (y x : α) : Prop := ∃ n, Depth r n x ∧ ¬Depth r n y

variable {n : Nat}

theorem depth_succ_iff : Depth r (n + 1) x ↔ ∃ y, Depth r n y ∧ r y x := by
  constructor
  · rintro (_ | ⟨hy, hyx⟩)
    exact ⟨_, hy, hyx⟩
  · rintro ⟨y, hy, hyx⟩
    exact hy.succ hyx

theorem Depth.pred (h : Depth r (n + 1) x) : Depth r n x := by
  induction n generalizing x with
  | zero => exact .zero x
  | succ n ih =>
    obtain ⟨y, hy, hyx⟩ := depth_succ_iff.mp h
    exact (ih hy).succ hyx

theorem Depth.le {m : Nat} (h : Depth r n x) (hm : m ≤ n) : Depth r m x := by
  induction hm with
  | refl => exact h
  | step _ ih => exact ih h.pred

theorem Depth.transGen (h : Depth r n y) (hyx : TransGen r y x) : Depth r (n + 1) x := by
  induction hyx with
  | single hedge => exact h.succ hedge
  | tail _ hedge ih => exact (ih.succ hedge).pred

/-- In a finite acyclic digraph the paths to a vertex are bounded. -/
theorem Acyclic.exists_not_depth (hr : Acyclic r) (hfin : s.Finite)
    (hclosed : ∀ x y, r y x → y ∈ s) (x : α) : ∃ n, ¬Depth r n x := by
  -- a vertex with arbitrarily long paths has a predecessor with such
  have hpred : ∀ x, (∀ n, Depth r n x) → ∃ y, r y x ∧ ∀ n, Depth r n y := by
    intro x hx
    by_contra hnone
    have hbound : ∀ y, r y x → ∃ n, ¬Depth r n y := by
      intro y hyx
      by_contra hall
      exact hnone ⟨y, hyx, fun n => not_not.mp fun hn => hall ⟨n, hn⟩⟩
    choose! bound hbound using hbound
    obtain ⟨N, hN⟩ := (hfin.image bound).bddAbove
    obtain ⟨y, hy, hyx⟩ := depth_succ_iff.mp (hx (N + 1))
    exact hbound y hyx (hy.le (hN ⟨y, hclosed x y hyx, rfl⟩))
  by_contra hdeep
  replace hdeep : ∀ n, Depth r n x := fun n => not_not.mp fun hn => hdeep ⟨n, hn⟩
  obtain ⟨y, hyx, hy⟩ := hpred x hdeep
  obtain ⟨z, ⟨-, hz⟩, hsource⟩ := hr.exists_source
    (hfin.subset (Set.sep_subset s fun z => ∀ n, Depth r n z)) ⟨y, hclosed x y hyx, hy⟩
  obtain ⟨u, huz, hu⟩ := hpred z hz
  exact hsource u ⟨hclosed z u huz, hu⟩ huz

/-- In a finite acyclic digraph a vertex is earlier than all that it has a path to. -/
theorem Acyclic.earlier (hr : Acyclic r) (hfin : s.Finite) (hclosed : ∀ x y, r y x → y ∈ s)
    (hyx : TransGen r y x) : Earlier r y x := by
  classical
  have hbound := hr.exists_not_depth hfin hclosed y
  refine ⟨Nat.find hbound, ?_, Nat.find_spec hbound⟩
  cases hfound : Nat.find hbound with
  | zero => exact .zero x
  | succ n =>
    have hn : Depth r n y := not_not.mp (Nat.find_min hbound (by omega))
    exact hn.transGen hyx

/-! ## Layerings -/

/-- `Ls` is what repeatedly taking **all** sources of the remaining vertices
`s` produces: each layer is nonempty, lists each source of the remaining
vertices once and nothing else, and the next layer is taken from what is
left. -/
def IsLayering [DecidableEq α] (r : α → α → Prop) : List (List α) → List α → Prop
  | [], s => s = []
  | L :: Ls, s =>
    L ≠ [] ∧ L.Nodup ∧ (∀ x, x ∈ L ↔ x ∈ s ∧ ∀ y ∈ s, ¬ r y x) ∧
      IsLayering r Ls (s.filter fun x => decide (x ∉ L))

variable [DecidableEq α]

/-- A layering lists every vertex exactly once. -/
theorem IsLayering.flatten_perm : ∀ {Ls : List (List α)} {s : List α},
    s.Nodup → IsLayering r Ls s → Ls.flatten.Perm s
  | [], s, _, h => by
    rw [IsLayering] at h
    rw [h]
    exact List.Perm.refl _
  | L :: Ls, s, hs, ⟨_, hLnodup, hL, hrest⟩ => by
    have ih := IsLayering.flatten_perm (hs.filter _) hrest
    have hin : (s.filter fun x => decide (x ∈ L)).Perm L := by
      refine (List.perm_ext_iff_of_nodup (hs.filter _) hLnodup).mpr fun x => ?_
      simp only [List.mem_filter, decide_eq_true_eq]
      exact ⟨fun hx => hx.2, fun hx => ⟨((hL x).mp hx).1, hx⟩⟩
    have hsplit := List.filter_append_perm (fun x => decide (x ∈ L)) s
    have hout : (s.filter fun x => !decide (x ∈ L)) = s.filter fun x => decide (x ∉ L) :=
      List.filter_congr fun x _ => by simp
    rw [hout] at hsplit
    have hfirst : (L ++ Ls.flatten).Perm (L ++ s.filter fun x => decide (x ∉ L)) :=
      ih.append_left L
    have hlayer : (L ++ s.filter fun x => decide (x ∉ L)).Perm
        ((s.filter fun x => decide (x ∈ L)) ++ s.filter fun x => decide (x ∉ L)) :=
      hin.symm.append_right _
    rw [List.flatten_cons]
    exact hfirst.trans (hlayer.trans hsplit)

/-- In a layering every predecessor of a vertex stands in an earlier layer. -/
theorem IsLayering.preds_earlier : ∀ {Ls : List (List α)} {s : List α},
    IsLayering r Ls s → ∀ {pre : List (List α)} {L : List α} {post : List (List α)},
    Ls = pre ++ L :: post → ∀ {x y : α}, x ∈ L → y ∈ s → r y x → y ∈ pre.flatten
  | [], _, _, pre, L, post, hsplit, x, y, _, _, _ => by
    simp at hsplit
  | L₀ :: Ls, s, ⟨_, _, hL, hrest⟩, pre, L, post, hsplit, x, y, hx, hy, hyx => by
    cases pre with
    | nil =>
      -- the first layer has no predecessor left at all
      obtain ⟨rfl, -⟩ := List.cons.inj hsplit
      exact absurd hyx (((hL x).mp hx).2 y hy)
    | cons P pre =>
      obtain ⟨rfl, hsplit'⟩ := List.cons.inj hsplit
      rw [List.flatten_cons, List.mem_append]
      by_cases hyL : y ∈ L₀
      · exact Or.inl hyL
      · refine Or.inr (IsLayering.preds_earlier hrest hsplit' hx ?_ hyx)
        simp only [List.mem_filter, decide_eq_true_eq]
        exact ⟨hy, hyL⟩

end Lib.Digraph
