/-! The distinct members of a list in the order in which they first appear. Adding members to a list
    adds those of them that are new, so a list that is kept up to date member by member, and is
    closed to new members once it has reached a limit, is the beginning of the distinct members of
    all that was offered to it. -/

namespace ResourceMerge

variable {α : Type} [BEq α] [LawfulBEq α]

theorem nodup_eraseDups : ∀ xs : List α, xs.eraseDups.Nodup
  | [] => by simp
  | x :: xs => by
    rw [List.eraseDups_cons, List.nodup_cons]
    refine ⟨fun h => ?_, nodup_eraseDups (xs.filter fun y => !y == x)⟩
    have hx := (List.mem_filter.1 (List.mem_eraseDups.1 h)).2
    simp at hx
termination_by xs => xs.length
decreasing_by
  have := List.length_filter_le (fun y => !y == x) xs
  simp only [List.length_cons]
  omega

theorem eraseDups_of_nodup : ∀ {xs : List α}, xs.Nodup → xs.eraseDups = xs
  | [], _ => by simp
  | x :: xs, h => by
    obtain ⟨hx, hxs⟩ := List.nodup_cons.1 h
    have hothers : xs.filter (fun y => !y == x) = xs := by
      rw [List.filter_eq_self]
      intro y hy
      have hne : y ≠ x := fun heq => hx (heq ▸ hy)
      simpa using hne
    rw [List.eraseDups_cons, hothers, eraseDups_of_nodup hxs]

/-- Leaving out of a list what stands before it does not change the first appearances. -/
theorem eraseDups_removeAll {xs ys : List α} (hys : ys.Nodup) (rest : List α) :
    (xs ++ (ys.removeAll xs ++ rest)).eraseDups = (xs ++ (ys ++ rest)).eraseDups := by
  have hnew : (ys.removeAll xs).eraseDups = ys.removeAll xs :=
    eraseDups_of_nodup (hys.sublist List.filter_sublist)
  have hself : (ys.removeAll xs).removeAll xs = ys.removeAll xs := by
    rw [List.removeAll, List.removeAll, List.filter_filter]
    simp
  have hrest : rest.removeAll (xs ++ ys.removeAll xs) = rest.removeAll (xs ++ ys) := by
    refine List.filter_congr fun y _ => ?_
    by_cases hy : y ∈ xs <;> simp [List.removeAll, hy]
  rw [← List.append_assoc, ← List.append_assoc, List.eraseDups_append, List.eraseDups_append,
    List.eraseDups_append, List.eraseDups_append, hself, hnew, hrest]

/-- What stands before is not repeated, whatever comes behind. -/
theorem eraseDups_append_of_nodup {xs : List α} (h : xs.Nodup) (ys : List α) :
    (xs ++ ys).eraseDups = xs ++ (ys.removeAll xs).eraseDups := by
  rw [List.eraseDups_append, eraseDups_of_nodup h]

/-- A new member counts. -/
theorem length_lt_of_notMem {xs : List α} (h : xs.Nodup) {x : α} (hx : x ∉ xs) (ys : List α) :
    xs.length < (xs ++ x :: ys).eraseDups.length := by
  have hmem : x ∈ ((x :: ys).removeAll xs).eraseDups := by
    simp [List.removeAll, hx]
  have hpos := List.length_pos_of_mem hmem
  rw [eraseDups_append_of_nodup h, List.length_append]
  omega

/-- A member that has appeared adds nothing. -/
theorem eraseDups_append_cons_of_mem {xs : List α} {x : α} (h : x ∈ xs) (ys : List α) :
    (xs ++ x :: ys).eraseDups = (xs ++ ys).eraseDups := by
  have hskip : (x :: ys).removeAll xs = ys.removeAll xs := by
    simp [List.removeAll, h]
  rw [List.eraseDups_append, List.eraseDups_append, hskip]

/-- The distinct members can be taken first. -/
theorem eraseDups_eraseDups_append (xs ys : List α) :
    (xs.eraseDups ++ ys).eraseDups = (xs ++ ys).eraseDups := by
  have hsame : ys.removeAll xs.eraseDups = ys.removeAll xs := by
    refine List.filter_congr fun y _ => ?_
    simp
  rw [eraseDups_append_of_nodup (nodup_eraseDups xs), List.eraseDups_append, hsame]

/-- A list that keeps the first `limit` distinct members and is offered more keeps the first of
    all. -/
theorem take_eraseDups_append (limit : Nat) (xs ys : List α) :
    ((xs.eraseDups.take limit ++ ys).eraseDups).take limit = ((xs ++ ys).eraseDups).take limit := by
  rcases Nat.le_total xs.eraseDups.length limit with hroom | hfull
  · rw [List.take_of_length_le hroom, eraseDups_eraseDups_append]
  · have hkept : (xs.eraseDups.take limit).length = limit := by
      rw [List.length_take, Nat.min_eq_left hfull]
    have hnodup := (nodup_eraseDups xs).sublist (List.take_sublist limit _)
    rw [eraseDups_append_of_nodup hnodup, List.take_append_of_le_length (Nat.le_of_eq hkept.symm),
      List.take_of_length_le (Nat.le_of_eq hkept), List.eraseDups_append,
      List.take_append_of_le_length hfull]

end ResourceMerge
