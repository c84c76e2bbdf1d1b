/-!
# Sets of code points

A property of characters is given by the ascending list of its maximal ranges of code points.
Main statement: on an ascending list the early stop of the search loses nothing.
-/

namespace ArithExpr.Text

/-- Whether a code point lies in one of the ranges of an ascending list; the search stops at the
first range that starts above the code point. -/
def inRanges (point : Nat) : List (Nat × Nat) → Bool
  | [] => false
  | (first, last) :: ranges => first ≤ point && (point ≤ last || inRanges point ranges)

/-- The ranges follow each other from low to high without touching. -/
def Ascending (ranges : List (Nat × Nat)) : Prop :=
  ranges.Pairwise fun a b => a.2 < b.1

/-- Whether a table is ascending can be decided. -/
instance (ranges : List (Nat × Nat)) : Decidable (Ascending ranges) :=
  inferInstanceAs (Decidable (List.Pairwise _ _))

/-- A search through an ascending table finds the points that are in one of its ranges. -/
theorem inRanges_iff {point : Nat} {ranges : List (Nat × Nat)}
    (nonempty : ∀ r ∈ ranges, r.1 ≤ r.2) (ascending : Ascending ranges) :
    inRanges point ranges = true ↔ ∃ r ∈ ranges, r.1 ≤ point ∧ point ≤ r.2 := by
  induction ranges with
  | nil => simp [inRanges]
  | cons head tail ih =>
    obtain ⟨above, ascending⟩ := List.pairwise_cons.1 ascending
    have ih := ih (fun r mem => nonempty r (List.mem_cons_of_mem _ mem)) ascending
    have headNonempty := nonempty head List.mem_cons_self
    simp only [inRanges, Bool.and_eq_true, Bool.or_eq_true, decide_eq_true_eq, ih,
      List.mem_cons, exists_eq_or_imp]
    constructor
    · rintro ⟨low, high | inTail⟩
      · exact .inl ⟨low, high⟩
      · exact .inr inTail
    · rintro (⟨low, high⟩ | ⟨r, mem, low, high⟩)
      · exact ⟨low, .inl high⟩
      · have := above r mem
        exact ⟨by omega, .inr ⟨r, mem, low, high⟩⟩

end ArithExpr.Text
