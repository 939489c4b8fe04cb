/-
# Leftist heaps

A heap is a binary tree whose every element comes no later than the elements below it.  Its single
operation is `merge`, which walks down the right spines of two heaps; the rank kept at each node
makes the right spine the shortest path down, so a merge takes logarithmically many steps.

The order is a parameter `le`.  What a heap holds is told by `toList`, up to order:

* `toList_merge`, `toList_push`: merging and pushing lose nothing and add nothing else;
* `toList_pop`: popping takes out one element;
* `ordered_merge`, `ordered_push`, `Ordered.top_le`: the tree condition is kept, and under it the
  element popped comes no later than any other.
-/

namespace Blockworld

/-- A binary tree with its rank, the length of its right spine, at every node. -/
inductive Heap (α : Type) where
  | leaf
  | node (rank : Nat) (top : α) (left right : Heap α)

namespace Heap

variable {α : Type}

/-! ## 1. Operations -/

/-- The length of the right spine. -/
def rank : Heap α → Nat
  | leaf => 0
  | node r _ _ _ => r

/-- The elements in no particular order. -/
def toList : Heap α → List α
  | leaf => []
  | node _ x l r => x :: (l.toList ++ r.toList)

/-- A node over two heaps, the one of smaller rank on the right. -/
def join (x : α) (a b : Heap α) : Heap α :=
  if b.rank ≤ a.rank then node (b.rank + 1) x a b else node (a.rank + 1) x b a

/-- Merges a heap with top `x`, left part `l` and whole `self` into another heap; `mergeRight`
merges its right part. -/
def mergeWith (le : α → α → Bool) (x : α) (l self : Heap α) (mergeRight : Heap α → Heap α) :
    Heap α → Heap α
  | leaf => self
  | node k y l' r' =>
    if le x y then join x l (mergeRight (node k y l' r'))
    else join y l' (mergeWith le x l self mergeRight r')

/-- The heap of the elements of two heaps. -/
def merge (le : α → α → Bool) : Heap α → Heap α → Heap α
  | leaf => fun b => b
  | node k x l r => mergeWith le x l (node k x l r) (merge le r)

/-- Adds an element. -/
def push (le : α → α → Bool) (x : α) (h : Heap α) : Heap α := merge le (node 1 x leaf leaf) h

/-- Takes the top out, if there is one. -/
def pop? (le : α → α → Bool) : Heap α → Option (α × Heap α)
  | leaf => none
  | node _ x l r => some (x, merge le l r)

/-- The heap of the elements of a list. -/
def ofList (le : α → α → Bool) (xs : List α) : Heap α := xs.foldl (fun h x => push le x h) leaf

/-! ## 2. Contents -/

@[simp] theorem toList_leaf : (leaf : Heap α).toList = [] := rfl

theorem toList_join (x : α) (a b : Heap α) :
    (join x a b).toList.Perm (x :: (a.toList ++ b.toList)) := by
  unfold join
  split
  · exact .refl _
  · exact .cons x List.perm_append_comm

/-- **A merge holds the elements of both heaps.** -/
theorem toList_merge (le : α → α → Bool) (a b : Heap α) :
    (merge le a b).toList.Perm (a.toList ++ b.toList) := by
  induction a generalizing b with
  | leaf => exact .refl _
  | node k x l r _ ihr =>
    show (mergeWith le x l (node k x l r) (merge le r) b).toList.Perm _
    induction b with
    | leaf =>
      simp only [mergeWith, toList_leaf, List.append_nil]
      exact .refl _
    | node k' y l' r' _ ihr' =>
      rw [mergeWith]
      split
      · refine (toList_join _ _ _).trans (.cons x ?_)
        show (l.toList ++ _).Perm ((l.toList ++ r.toList) ++ (node k' y l' r').toList)
        rw [List.append_assoc]
        exact .append_left _ (ihr _)
      · refine (toList_join _ _ _).trans ?_
        refine (List.Perm.cons y (.append_left l'.toList ihr')).trans ?_
        refine (List.Perm.cons y ?_).trans List.perm_middle.symm
        rw [← List.append_assoc, ← List.append_assoc]
        exact .append_right _ List.perm_append_comm

/-- A push adds one element. -/
theorem toList_push (le : α → α → Bool) (x : α) (h : Heap α) :
    (push le x h).toList.Perm (x :: h.toList) := toList_merge le (node 1 x leaf leaf) h

/-- A pop takes one element out. -/
theorem toList_pop {le : α → α → Bool} {h h' : Heap α} {x : α} (hp : h.pop? le = some (x, h')) :
    h.toList.Perm (x :: h'.toList) := by
  cases h with
  | leaf => cases hp
  | node k y l r =>
    cases hp
    exact .cons x (toList_merge le l r).symm

theorem pop?_eq_none_iff {le : α → α → Bool} {h : Heap α} : h.pop? le = none ↔ h.toList = [] := by
  cases h <;> simp [pop?, toList]

theorem toList_ofList (le : α → α → Bool) (xs : List α) : (ofList le xs).toList.Perm xs := by
  suffices h : ∀ (ys : List α) (h : Heap α),
      (ys.foldl (fun h x => push le x h) h).toList.Perm (ys ++ h.toList) by
    simpa [ofList] using h xs leaf
  intro ys
  induction ys with
  | nil => intro h; exact .refl _
  | cons y ys ih =>
    intro h
    refine (ih _).trans ?_
    exact (List.Perm.append_left ys (toList_push le y h)).trans List.perm_middle

/-! ## 3. Order -/

/-- Every element comes no later than the elements below it. -/
def Ordered (le : α → α → Bool) : Heap α → Prop
  | leaf => True
  | node _ x l r =>
    (∀ y ∈ l.toList ++ r.toList, le x y) ∧ l.Ordered le ∧ r.Ordered le

theorem ordered_join {le : α → α → Bool} {x : α} {a b : Heap α}
    (hx : ∀ y ∈ a.toList ++ b.toList, le x y) (ha : a.Ordered le) (hb : b.Ordered le) :
    (join x a b).Ordered le := by
  unfold join
  split
  · exact ⟨hx, ha, hb⟩
  · refine ⟨fun y hy => hx y ?_, hb, ha⟩
    rw [List.mem_append] at hy ⊢
    exact hy.symm

/-- **Merging keeps the order** of a total preorder. -/
theorem ordered_merge {le : α → α → Bool}
    (trans : ∀ x y z, le x y → le y z → le x z) (total : ∀ x y, le x y || le y x)
    {a b : Heap α} (ha : a.Ordered le) (hb : b.Ordered le) : (merge le a b).Ordered le := by
  induction a generalizing b with
  | leaf => exact hb
  | node k x l r _ ihr =>
    show (mergeWith le x l (node k x l r) (merge le r) b).Ordered le
    induction b with
    | leaf => exact ha
    | node k' y l' r' _ ihr' =>
      obtain ⟨hxl, hl, hr⟩ := ha
      have hb' := hb
      obtain ⟨hyl, hl', hr'⟩ := hb
      rw [mergeWith]
      split
      · next hxy =>
        refine ordered_join (fun z hz => ?_) hl (ihr hr hb')
        rw [List.mem_append, (toList_merge le r _).mem_iff, List.mem_append] at hz
        rcases hz with hz | hz | hz
        · exact hxl z (List.mem_append_left _ hz)
        · exact hxl z (List.mem_append_right _ hz)
        · rcases List.mem_cons.1 hz with rfl | hz
          · exact hxy
          · exact trans x y z hxy (hyl z hz)
      · next hxy =>
        have hyx : le y x = true := by
          have := total x y
          simpa [hxy] using this
        have hself : (mergeWith le x l (node k x l r) (merge le r) r').toList.Perm
            ((node k x l r).toList ++ r'.toList) := toList_merge le (node k x l r) r'
        refine ordered_join (fun z hz => ?_) hl' (ihr' hr')
        rw [List.mem_append, hself.mem_iff, List.mem_append] at hz
        rcases hz with hz | hz | hz
        · exact hyl z (List.mem_append_left _ hz)
        · rcases List.mem_cons.1 hz with rfl | hz
          · exact hyx
          · exact trans y x z hyx (hxl z hz)
        · exact hyl z (List.mem_append_right _ hz)

theorem ordered_push {le : α → α → Bool}
    (trans : ∀ x y z, le x y → le y z → le x z) (total : ∀ x y, le x y || le y x)
    (x : α) {h : Heap α} (hh : h.Ordered le) : (push le x h).Ordered le :=
  ordered_merge trans total ⟨fun _ hy => absurd hy (by simp), trivial, trivial⟩ hh

theorem ordered_pop {le : α → α → Bool}
    (trans : ∀ x y z, le x y → le y z → le x z) (total : ∀ x y, le x y || le y x)
    {h h' : Heap α} {x : α} (hh : h.Ordered le) (hp : h.pop? le = some (x, h')) :
    h'.Ordered le := by
  cases h with
  | leaf => cases hp
  | node k y l r =>
    cases hp
    exact ordered_merge trans total hh.2.1 hh.2.2

theorem ordered_ofList {le : α → α → Bool}
    (trans : ∀ x y z, le x y → le y z → le x z) (total : ∀ x y, le x y || le y x)
    (xs : List α) : (ofList le xs).Ordered le := by
  suffices h : ∀ (ys : List α) (h : Heap α), h.Ordered le →
      (ys.foldl (fun h x => push le x h) h).Ordered le from h xs leaf trivial
  intro ys
  induction ys with
  | nil => exact fun h hh => hh
  | cons y ys ih => exact fun h hh => ih _ (ordered_push trans total y hh)

/-- **What is popped comes no later than what stays.** -/
theorem Ordered.top_le {le : α → α → Bool} {h h' : Heap α} {x : α} (hh : h.Ordered le)
    (hp : h.pop? le = some (x, h')) : ∀ y ∈ h'.toList, le x y := by
  cases h with
  | leaf => cases hp
  | node k z l r =>
    cases hp
    intro y hy
    exact hh.1 y ((toList_merge le l r).mem_iff.1 hy)

end Heap

end Blockworld
