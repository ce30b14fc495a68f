import Mathlib.Data.List.Induction

/-!
# A ring buffer over a sliding window

Events written one after another into a buffer of `W` slots, the `i`-th into slot `i % W`:
each slot holds the last event written to it, so the slots hold the last `W` events, one
each.  `SlotHolds p W l j` says that slot `j`, after the events `l`, holds an event with
`p`; `count p W l` counts those slots.

* `SlotHolds_append_singleton`: a new event replaces what its slot held and nothing else;
* `count_append_singleton`: a new event changes the count by itself less what its slot held;
* `count_eq_window`: the slots with `p` are as many as the events with `p` among the last
  `W`, the window `l.drop (l.length - W)`;
* `countP_range_update`: counting over `[0, W)` after one entry changed.
-/

namespace RingWindow

variable {α : Type*} (p : α → Bool) (W : ℕ)

/-- Slot `j` holds an event with `p`: one of the last `W` events went to slot `j` and has
`p`. -/
def SlotHolds (l : List α) (j : ℕ) : Prop :=
  ∃ i < l.length, l.length ≤ i + W ∧ i % W = j ∧ l[i]?.map p = some true

instance (l : List α) (j : ℕ) : Decidable (SlotHolds p W l j) := by
  unfold SlotHolds
  infer_instance

/-- The number of slots of `[0, W)` that hold an event with `p`. -/
def count (l : List α) : ℕ :=
  (List.range W).countP fun j => decide (SlotHolds p W l j)

variable {p W}

/-- Two events fewer than `W` apart go to different slots. -/
theorem mod_ne_of_lt {i n : ℕ} (h₁ : i < n) (h₂ : n < i + W) : i % W ≠ n % W := by
  intro h
  have hdvd : W ∣ n - i := Nat.dvd_of_mod_eq_zero (Nat.sub_mod_eq_zero_of_mod_eq h.symm)
  have hpos : 0 < n - i := by omega
  exact absurd (Nat.le_of_dvd hpos hdvd) (by omega)

theorem not_SlotHolds_nil (j : ℕ) : ¬ SlotHolds p W [] j := by
  rintro ⟨i, hi, -⟩
  exact absurd hi (Nat.not_lt_zero i)

/-- A new event replaces what its slot held, and leaves the other slots. -/
theorem SlotHolds_append_singleton (hW : 0 < W) (l : List α) (a : α) (j : ℕ) :
    SlotHolds p W (l ++ [a]) j ↔ if j = l.length % W then p a = true else SlotHolds p W l j := by
  simp only [SlotHolds, List.length_append, List.length_singleton]
  split_ifs with hj
  · constructor
    · rintro ⟨i, hi, hwin, rfl, hp⟩
      -- an older event of the window is not in the new event's slot
      rcases Nat.lt_succ_iff_lt_or_eq.mp hi with hi | rfl
      · exact absurd hj (mod_ne_of_lt hi (by omega))
      · simpa using hp
    · intro hp
      exact ⟨l.length, by omega, by omega, hj.symm, by simp [hp]⟩
  · constructor
    · rintro ⟨i, hi, hwin, rfl, hp⟩
      rcases Nat.lt_succ_iff_lt_or_eq.mp hi with hi | rfl
      · -- the event was in the window before, at a slot the new event does not touch
        refine ⟨i, hi, ?_, rfl, by rwa [List.getElem?_append_left hi] at hp⟩
        by_contra hout
        exact hj (by rw [show l.length = i + W by omega, Nat.add_mod_right])
      · exact absurd rfl hj
    · rintro ⟨i, hi, hwin, rfl, hp⟩
      -- the event at the start of the old window shares the new event's slot
      refine ⟨i, by omega, ?_, rfl, by rwa [List.getElem?_append_left hi]⟩
      by_contra hout
      exact hj (by rw [show l.length = i + W by omega, Nat.add_mod_right])

/-- The slot the next event goes to holds the event that leaves the window, if any. -/
theorem SlotHolds_length_mod (l : List α) :
    SlotHolds p W l (l.length % W) ↔ W ≤ l.length ∧ l[l.length - W]?.map p = some true := by
  constructor
  · rintro ⟨i, hi, hwin, hmod, hp⟩
    -- the only event of the window in that slot is the oldest
    have hi' : i + W = l.length := by
      by_contra hne
      exact mod_ne_of_lt hi (by omega) hmod
    exact ⟨by omega, by rwa [show l.length - W = i by omega]⟩
  · rintro ⟨hW, hp⟩
    refine ⟨l.length - W, ?_, by omega, ?_, hp⟩
    · rcases Nat.eq_zero_or_pos W with rfl | hpos
      · simp at hp
      · omega
    · conv_rhs => rw [show l.length = l.length - W + W by omega]
      rw [Nat.add_mod_right]

/-- Counting over `[0, W)` after the entry at `k` changed from `f k` to `g k`. -/
theorem countP_range_update {f g : ℕ → Bool} {k : ℕ} (hk : k < W) (hfg : ∀ j, j ≠ k → g j = f j) :
    (List.range W).countP g + (if f k then 1 else 0) =
      (List.range W).countP f + (if g k then 1 else 0) := by
  induction W with
  | zero => exact absurd hk (Nat.not_lt_zero k)
  | succ W ih =>
    simp only [List.range_succ, List.countP_append, List.countP_singleton]
    rcases Nat.lt_succ_iff_lt_or_eq.mp hk with hk | rfl
    · rw [hfg W (by omega)]
      have := ih hk
      omega
    · -- the changed entry is the last one
      have hrest : (List.range k).countP g = (List.range k).countP f :=
        List.countP_congr fun j hj => by rw [hfg j (by simp at hj; omega)]
      rw [hrest]
      omega

/-- A new event changes the count by itself, less what its slot held. -/
theorem count_append_singleton (hW : 0 < W) (l : List α) (a : α) :
    count p W (l ++ [a]) + (if SlotHolds p W l (l.length % W) then 1 else 0) =
      count p W l + (if p a then 1 else 0) := by
  have hupd := countP_range_update (f := fun j => decide (SlotHolds p W l j))
    (g := fun j => decide (SlotHolds p W (l ++ [a]) j)) (Nat.mod_lt l.length hW)
    (fun j hj => by simp only [SlotHolds_append_singleton hW, hj, if_false])
  simpa [count, SlotHolds_append_singleton hW] using hupd

/-- The slots with `p` are as many as the events with `p` in the window of the last `W`. -/
theorem count_eq_window (hW : 0 < W) (l : List α) :
    count p W l = (l.drop (l.length - W)).countP p := by
  induction l using List.reverseRecOn with
  | nil => simp [count, not_SlotHolds_nil]
  | append_singleton l a ih =>
    have hstep := count_append_singleton (p := p) hW l a
    rw [List.length_append, List.length_singleton]
    rcases Nat.lt_or_ge l.length W with hlt | hge
    · -- the window is not full yet: nothing leaves it
      rw [show l.length - W = 0 by omega, List.drop_zero] at ih
      rw [show l.length + 1 - W = 0 by omega, List.drop_zero, List.countP_append,
        List.countP_singleton]
      simp only [SlotHolds_length_mod, Nat.not_le.mpr hlt, false_and, ↓reduceIte] at hstep
      omega
    · -- the oldest event of the window leaves it
      have hlt : l.length - W < l.length := by omega
      rw [List.drop_eq_getElem_cons hlt, List.countP_cons] at ih
      rw [show l.length + 1 - W = l.length - W + 1 by omega,
        List.drop_append_of_le_length (by omega), List.countP_append, List.countP_singleton]
      simp only [SlotHolds_length_mod, hge, true_and, List.getElem?_eq_getElem hlt,
        Option.map_some, Option.some.injEq] at hstep
      omega

/-- At most `W` slots hold anything. -/
theorem count_le (l : List α) : count p W l ≤ W := by
  unfold count
  exact Nat.le_trans List.countP_le_length (by simp)

end RingWindow
