import Mathlib.Data.List.Chain
import Mathlib.Logic.Function.Basic
import Mathlib.Tactic.Common

/-!
Nodes that carry a depth and name a parent, which may not be there.

The depths are right when a node without a parent has depth zero and any other has one more
than its parent. Right depths under a cap bound how long parents can be followed.
-/

namespace Dbx4.ParentLinks

universe u

structure Node (κ : Type u) where
  depth : ℕ
  parent : Option κ

variable {κ : Type u}

/-- The node that is there under the name of a parent. -/
def parentNode (nodes : κ → Option (Node κ)) (parent : Option κ) : Option (Node κ) :=
  parent.bind nodes

/-- The depth of a node that names `parent`. -/
def depthBelow (nodes : κ → Option (Node κ)) (parent : Option κ) : ℕ :=
  match parentNode nodes parent with
  | none => 0
  | some n => n.depth + 1

/-- Every depth is right and at most the cap. -/
def Levelled (nodes : κ → Option (Node κ)) (cap : ℕ) : Prop :=
  ∀ k n, nodes k = some n → n.depth = depthBelow nodes n.parent ∧ n.depth ≤ cap

variable {nodes : κ → Option (Node κ)} {cap : ℕ}

/-- Following parents from a node takes as many steps as its depth allows. -/
lemma length_le_depth (h : Levelled nodes cap) {n : Node κ} {ns : List (Node κ)} {k : κ}
    (hn : nodes k = some n)
    (hchain : (n :: ns).IsChain fun a b => parentNode nodes a.parent = some b) :
    ns.length ≤ n.depth := by
  induction ns generalizing n k with
  | nil => exact Nat.zero_le _
  | cons p ns ih =>
    obtain ⟨hp, hrest⟩ := List.isChain_cons_cons.mp hchain
    obtain ⟨k', -, hk'⟩ := Option.bind_eq_some_iff.mp hp
    have hdepth : n.depth = p.depth + 1 := by
      rw [(h k n hn).1, depthBelow, hp]
    have := ih hk' hrest
    rw [List.length_cons]
    omega

/-- **Chains of parents** have at most one node more than the cap. -/
theorem chain_length_le (h : Levelled nodes cap) {ns : List (Node κ)}
    (hmem : ∀ n ∈ ns, ∃ k, nodes k = some n)
    (hchain : ns.IsChain fun a b => parentNode nodes a.parent = some b) :
    ns.length ≤ cap + 1 := by
  rcases ns with _ | ⟨n, ns⟩
  · exact Nat.zero_le _
  · obtain ⟨k, hk⟩ := hmem n List.mem_cons_self
    have hlen := length_le_depth h hk hchain
    have hcap := (h k n hk).2
    rw [List.length_cons]
    omega

variable [DecidableEq κ]

/-- A new node fits in when its depth is right, and so are the depths of the nodes that
already name it as their parent. -/
def FitsIn (nodes : κ → Option (Node κ)) (cap : ℕ) (k : κ) (n : Node κ) : Prop :=
  n.parent ≠ some k ∧ n.depth = depthBelow nodes n.parent ∧ n.depth ≤ cap ∧
    ∀ k' n', k' ≠ k → nodes k' = some n' → n'.parent = some k → n'.depth = n.depth + 1

lemma parentNode_update_of_ne {k : κ} {n : Node κ} {parent : Option κ} (h : parent ≠ some k) :
    parentNode (Function.update nodes k (some n)) parent = parentNode nodes parent := by
  rcases parent with _ | k'
  · rfl
  · exact Function.update_of_ne (fun he => h (congrArg some he)) _ _

lemma depthBelow_update_of_ne {k : κ} {n : Node κ} {parent : Option κ} (h : parent ≠ some k) :
    depthBelow (Function.update nodes k (some n)) parent = depthBelow nodes parent := by
  unfold depthBelow
  rw [parentNode_update_of_ne h]

lemma depthBelow_update_self (k : κ) (n : Node κ) :
    depthBelow (Function.update nodes k (some n)) (some k) = n.depth + 1 := by
  simp [depthBelow, parentNode]

/-- **A new node** keeps the depths right exactly when it fits in. -/
theorem levelled_update_iff (h : Levelled nodes cap) (k : κ) (n : Node κ) :
    Levelled (Function.update nodes k (some n)) cap ↔ FitsIn nodes cap k n := by
  constructor
  · intro h'
    obtain ⟨hdepth, hcap⟩ := h' k n (Function.update_self ..)
    have hself : n.parent ≠ some k := by
      intro he
      rw [he, depthBelow_update_self] at hdepth
      omega
    rw [depthBelow_update_of_ne hself] at hdepth
    refine ⟨hself, hdepth, hcap, fun k' n' hne hn' hparent => ?_⟩
    have hdepth' := (h' k' n' (by rw [Function.update_of_ne hne, hn'])).1
    rwa [hparent, depthBelow_update_self] at hdepth'
  · rintro ⟨hself, hdepth, hcap, hnamed⟩ k' n' hn'
    by_cases hk : k' = k
    · subst hk
      rw [Function.update_self] at hn'
      cases hn'
      rw [depthBelow_update_of_ne hself]
      exact ⟨hdepth, hcap⟩
    · rw [Function.update_of_ne hk] at hn'
      refine ⟨?_, (h k' n' hn').2⟩
      by_cases hparent : n'.parent = some k
      · rw [hparent, depthBelow_update_self]
        exact hnamed k' n' hk hn' hparent
      · rw [depthBelow_update_of_ne hparent]
        exact (h k' n' hn').1

end Dbx4.ParentLinks
