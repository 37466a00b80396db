import Typeahead.Token

/-! Lists of tokens in which each comes for the first time in the order of the text, whatever is repeated. -/

namespace Typeahead

/-- Whether the first occurrences of tokens come in the order of the text. -/
def InOrder (xs : List Token) : Prop :=
  ∀ front x back, xs = front ++ x :: back →
    ∀ y ∈ xs, y ≠ x → y.start.offset ≤ x.start.offset → y ∈ front

theorem append_eq_split {α : Type} {xs ys front back : List α} {x : α} (h : xs ++ ys = front ++ x :: back) :
    (∃ mid, xs = front ++ x :: mid ∧ back = mid ++ ys) ∨ ∃ mid, front = xs ++ mid ∧ ys = mid ++ x :: back := by
  rcases List.append_eq_append_iff.mp h with ⟨mid, hfront, hys⟩ | ⟨mid, hxs, hback⟩
  · exact .inr ⟨mid, hfront, hys⟩
  · cases mid with
    | nil => exact .inr ⟨[], by simpa using hxs.symm, by simpa using hback.symm⟩
    | cons m mid =>
        obtain ⟨rfl, rfl⟩ := List.cons.inj hback
        exact .inl ⟨mid, hxs, rfl⟩

namespace InOrder

variable {xs ys : List Token}

theorem nil : InOrder [] := by
  intro front x back h
  simp at h

theorem concat {x : Token} (h : InOrder xs) (hx : ∀ y ∈ xs, y.start.offset < x.start.offset) :
    InOrder (xs ++ [x]) := by
  intro front z back hsplit y hy hne hle
  rcases append_eq_split hsplit with ⟨mid, hxs, rfl⟩ | ⟨mid, rfl, hz⟩
  · have hlt := hx z (by simp [hxs])
    rcases List.mem_append.mp hy with hy | hy
    · exact h front z mid hxs y hy hne hle
    · rw [List.mem_singleton.mp hy] at hle
      omega
  · obtain ⟨rfl, hcons⟩ | ⟨_, hnil⟩ := List.cons_eq_append_iff.mp hz
    · obtain ⟨rfl, _⟩ := List.cons.inj hcons
      simpa [hne] using hy
    · simp at hnil

theorem of_pairwise (h : xs.Pairwise fun a b => a.start.offset < b.start.offset) : InOrder xs := by
  intro front x back hsplit y hy hne hle
  subst hsplit
  rw [List.pairwise_append, List.pairwise_cons] at h
  rcases List.mem_append.mp hy with hy | hy
  · exact hy
  · rcases List.mem_cons.mp hy with rfl | hy
    · exact absurd rfl hne
    · have hlt := h.2.1.1 y hy
      omega

/-- An echo of all that is still to come changes no first occurrence. -/
theorem echo {zs : List Token} (h : InOrder (xs ++ ys)) (hz : InOrder zs) (hzy : zs ⊆ ys)
    (hyz : ys ⊆ xs ++ zs) : InOrder (xs ++ zs ++ ys) := by
  have hall : xs ++ zs ++ ys ⊆ xs ++ zs :=
    List.append_subset.mpr ⟨List.Subset.refl _, hyz⟩
  intro front x back hsplit y hy hne hle
  rcases append_eq_split hsplit with ⟨mid, hx, rfl⟩ | ⟨mid, rfl, _⟩
  · rcases append_eq_split hx with ⟨mid', rfl, rfl⟩ | ⟨mid', rfl, rfl⟩
    · refine h front x (mid' ++ ys) (by simp) y ?_ hne hle
      rcases List.mem_append.mp (hall hy) with hy | hy
      · exact List.mem_append_left _ hy
      · exact List.mem_append_right _ (hzy hy)
    · rcases List.mem_append.mp (hall hy) with hy | hy
      · exact List.mem_append_left _ hy
      · exact List.mem_append_right _ (hz mid' x mid rfl y hy hne hle)
  · exact List.mem_append_left _ (hall hy)

/-- Lists in order with the same tokens of a kind have the same first one. -/
theorem find?_eq {p : Token → Bool} (hx : InOrder xs) (hy : InOrder ys)
    (h : ∀ x, p x → (x ∈ xs ↔ x ∈ ys)) : xs.find? p = ys.find? p := by
  have hfirst {ys : List Token} {x y : Token} (hy : InOrder ys) (hx : x ∈ ys) (hpx : p x)
      (hfind : ys.find? p = some y) (hle : x.start.offset ≤ y.start.offset) : x = y := by
    refine Classical.byContradiction fun hne => ?_
    obtain ⟨_, front, back, hsplit, hfront⟩ := List.find?_eq_some_iff_append.mp hfind
    have hmem := hy front y back hsplit x hx hne hle
    simpa [hpx] using hfront x hmem
  cases hfx : xs.find? p with
  | none =>
      symm
      rw [List.find?_eq_none] at hfx ⊢
      exact fun x hx hp => hfx x ((h x hp).mpr hx) hp
  | some x =>
      have hpx := List.find?_some hfx
      have hxy := (h x hpx).mp (List.mem_of_find?_eq_some hfx)
      cases hfy : ys.find? p with
      | none => exact absurd hpx (List.find?_eq_none.mp hfy x hxy)
      | some y =>
          have hpy := List.find?_some hfy
          have hyx := (h y hpy).mpr (List.mem_of_find?_eq_some hfy)
          rcases Nat.le_total x.start.offset y.start.offset with hle | hle
          · rw [hfirst hy hxy hpx hfy hle]
          · rw [hfirst hx hyx hpy hfx hle]

end InOrder

end Typeahead
