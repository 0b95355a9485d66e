import RootSearch.Refiner
/-!
# What is kept of every point

Brackets and methods hold points with their values, and each move drops some of these and takes in
the new one. Whatever is true of every point with its value before a move and of the new one is true
of every point after it.
-/

namespace RootSearch

/-- Both ends satisfy `P`, each with its value. -/
structure Bracket.All {α : Type} (P : α → α → Prop) (b : Bracket α) : Prop where
  min : P b.xMin b.fMin
  max : P b.xMax b.fMax

variable {α : Type} {P Q : α → α → Prop} {b : Bracket α} {x fx : α}

namespace Bracket

theorem All.imp (h : b.All P) (hPQ : ∀ x fx, P x fx → Q x fx) : b.All Q :=
  ⟨hPQ _ _ h.min, hPQ _ _ h.max⟩

variable [Scalar α]

theorem All.shrink (h : b.All P) (hx : P x fx) : (b.shrink x fx).All P := by
  unfold Bracket.shrink
  split
  · exact ⟨hx, h.max⟩
  · exact ⟨h.min, hx⟩

theorem closer_all {p q : α × α} (hp : P p.1 p.2) (hq : P q.1 q.2) :
    P (closer p q).1 (closer p q).2 := by
  unfold closer
  split
  · exact hq
  · exact hp

theorem All.best {p : α × α} (h : b.All P) (hp : P p.1 p.2) : P (b.best p).1 (b.best p).2 :=
  closer_all (closer_all hp h.min) h.max

end Bracket

variable [Scalar α]

theorem Ridder.narrow_all {mid fMid : α} (h : b.All P) (hmid : P mid fMid) (hx : P x fx) :
    (narrow b mid fMid x fx).All P := by
  unfold narrow
  split
  · exact ⟨hmid, hx⟩
  · exact h.shrink hx

/-! ## Brent's method -/

namespace Brent

variable {i : Iterate α}

theorem reset_all (hb : b.All P) (hi : P i.x i.fx) :
    (reset b i).1.All P ∧ P (reset b i).2.x (reset b i).2.fx := by
  unfold reset
  split
  · exact ⟨⟨hb.min, hb.min⟩, hi⟩
  · exact ⟨hb, hi⟩

theorem swap_all (hb : b.All P) (hi : P i.x i.fx) :
    (swap b i).1.All P ∧ P (swap b i).2.x (swap b i).2.fx := by
  unfold swap
  split
  · exact ⟨⟨hi, hi⟩, hb.max⟩
  · exact ⟨hb, hi⟩

theorem arrange_all (hb : b.All P) (hi : P i.x i.fx) :
    (arrange b i).1.All P ∧ P (arrange b i).2.x (arrange b i).2.fx := by
  obtain ⟨hb', hi'⟩ := reset_all hb hi
  exact swap_all hb' hi'

theorem pickContrapoint_all (hb : b.All P) (fx : α) : (pickContrapoint b fx).All P := by
  unfold pickContrapoint
  split
  · exact ⟨hb.min, hb.min⟩
  · exact ⟨hb.max, hb.max⟩

end Brent

theorem Brentq.replay_all {found : List (α × α)} (hb : b.All P) (h : ∀ p ∈ found, P p.1 p.2) :
    (replay b found).All P := by
  unfold replay
  refine List.foldlRecOn found _ hb fun b hb p hp => ?_
  split
  · exact hb
  · exact hb.shrink (h p hp)

end RootSearch
