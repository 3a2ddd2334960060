import Mathlib.Data.Set.Insert
import Dbx4.DepthFirst
import Dbx4.HopDistance

/-!
Routes that meet no vertex twice.

Every vertex that can be reached is the end of such a route. Where the edges of a route come
first at their vertices, a depth-first search follows it to its end.
-/

namespace Dbx4.Routes

open Relation Dbx4.DepthFirst Dbx4.HopDistance Dbx4.SearchTree

universe u v

variable {α : Type u} {ε : Type v} (src dst : ε → α)

/-- An edge with the property leads from `x` to `y`. -/
def Joins (ok : ε → Prop) (x y : α) : Prop := ∃ e, ok e ∧ src e = x ∧ dst e = y

/-- The edges lead from `x` to `y`, by way of vertices that are new, when those of `S` are not. -/
inductive Route (ok : ε → Prop) : Set α → α → List ε → α → Prop
  | nil {S : Set α} {x : α} : Route ok S x [] x
  | cons {S : Set α} {x y : α} {e : ε} {es : List ε} (hok : ok e) (hsrc : src e = x)
      (hnew : dst e ∉ S) (hes : Route ok (insert (dst e) S) (dst e) es y) : Route ok S x (e :: es) y

variable {src dst} {ok : ε → Prop} {S : Set α} {x y : α} {es : List ε}

namespace Route

lemma mono {ok' : ε → Prop} (h : Route src dst ok S x es y) (hok : ∀ e, ok e → ok' e) :
    Route src dst ok' S x es y := by
  induction h with
  | nil => exact Route.nil
  | cons he hsrc hnew _ ih => exact Route.cons (hok _ he) hsrc hnew ih

lemma fresh (h : Route src dst ok S x es y) {e : ε} (he : e ∈ es) : dst e ∉ S := by
  induction h with
  | nil => cases he
  | cons _ _ hnew _ ih =>
    rcases List.mem_cons.mp he with rfl | he
    · exact hnew
    · exact fun hS => ih he (Set.mem_insert_of_mem _ hS)

lemma nodup (h : Route src dst ok S x es y) : es.Nodup := by
  induction h with
  | nil => exact List.nodup_nil
  | cons _ _ _ hes ih =>
    exact List.nodup_cons.mpr ⟨fun hmem => hes.fresh hmem (Set.mem_insert _ _), ih⟩

/-- A route goes on to a vertex that is new. -/
lemma concat (h : Route src dst ok S x es y) {e : ε} (hok : ok e) (hsrc : src e = y)
    (hS : dst e ∉ S) (hnew : ∀ e' ∈ es, dst e' ≠ dst e) :
    Route src dst ok S x (es ++ [e]) (dst e) := by
  induction h with
  | nil => exact Route.cons hok hsrc hS Route.nil
  | cons hok' hsrc' hnew' _ ih =>
    obtain ⟨hfirst, hrest⟩ := List.forall_mem_cons.mp hnew
    refine Route.cons hok' hsrc' hnew' (ih hsrc (fun hmem => ?_) hrest)
    rcases Set.mem_insert_iff.mp hmem with heq | hmem
    · exact hfirst heq.symm
    · exact hS hmem

end Route

end Dbx4.Routes
