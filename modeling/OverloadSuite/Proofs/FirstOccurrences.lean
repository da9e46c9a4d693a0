/-!
# First occurrences

`List.eraseDups` keeps the first occurrence of every element. It is the ordered union in which
resolution is specified: duplicates may be dropped early, late or not until the end. With
`List.eraseDupsBy` elements that have the same key count as the same.
-/

namespace OverloadSuite.FirstOccurrences

variable {α κ : Type}

/-- What is kept after the head is kept of a part of the tail, so proofs go by the parts of the
tail. -/
theorem parts_induction {P : List α → Prop} (nil : P [])
    (cons : ∀ a l, (∀ p : α → Bool, P (l.filter p)) → P (a :: l)) (l : List α) : P l := by
  match l with
  | [] => exact nil
  | a :: l =>
    have hless : ∀ p : α → Bool, (l.filter p).length < (a :: l).length :=
      fun p => Nat.lt_succ_of_le (List.length_filter_le p l)
    exact cons a l fun p => parts_induction nil cons (l.filter p)
termination_by l.length
decreasing_by exact hless p

/-! ## Elements that count as the same -/

theorem sublist_eraseDupsBy (r : α → α → Bool) (l : List α) : (l.eraseDupsBy r).Sublist l := by
  induction l using parts_induction with
  | nil => exact .slnil
  | cons a l ih =>
    rw [List.eraseDupsBy_cons]
    exact ((ih _).trans List.filter_sublist).cons_cons a

/-- Elements at the end do not change what is kept before them. -/
theorem prefix_eraseDupsBy_append (r : α → α → Bool) (l m : List α) :
    l.eraseDupsBy r <+: (l ++ m).eraseDupsBy r := by
  induction l using parts_induction generalizing m with
  | nil => exact List.nil_prefix
  | cons a l ih =>
    rw [List.cons_append, List.eraseDupsBy_cons, List.eraseDupsBy_cons, List.filter_append]
    exact (List.prefix_cons_inj a).mpr (ih _ _)

/-- A filter that does not tell apart what counts as the same may come before or after: it takes all
copies of an element or none, so the first copy stays the first. -/
theorem eraseDupsBy_filter {r : α → α → Bool} {p : α → Bool}
    (hp : ∀ a b, r b a = true → p b = p a) (l : List α) :
    (l.filter p).eraseDupsBy r = (l.eraseDupsBy r).filter p := by
  induction l using parts_induction with
  | nil => rfl
  | cons a l ih =>
    have hswap : (l.filter p).filter (fun b => decide (r b a = false)) =
        (l.filter fun b => decide (r b a = false)).filter p := by
      rw [List.filter_filter, List.filter_filter]
      exact List.filter_congr fun b _ => Bool.and_comm _ _
    rw [List.eraseDupsBy_cons]
    by_cases ha : p a = true
    · rw [List.filter_cons_of_pos ha, List.filter_cons_of_pos ha, List.eraseDupsBy_cons, hswap, ih]
    · -- nothing is dropped, for no copy of `a` passes the filter
      have hkeep : ((l.filter p).filter fun b => decide (r b a = false)) = l.filter p := by
        refine List.filter_eq_self.mpr fun b hb => ?_
        have hpb := (List.mem_filter.mp hb).2
        have hne : ¬r b a = true := fun h => ha (hp a b h ▸ hpb)
        simpa using hne
      rw [List.filter_cons_of_neg ha, List.filter_cons_of_neg ha, ← ih, ← hswap, hkeep]

section Keys

variable [BEq κ] (key : α → κ)

theorem map_eraseDupsBy (l : List α) :
    (l.eraseDupsBy fun a b => key a == key b).map key = (l.map key).eraseDups := by
  induction l using parts_induction with
  | nil => rfl
  | cons a l ih =>
    rw [List.eraseDupsBy_cons, List.map_cons, List.map_cons, List.eraseDups_cons, ih,
      List.filter_map]
    congr 3
    refine List.filter_congr fun b _ => ?_
    simp

variable [LawfulBEq κ]

/-- Of the elements with a key, only the first one is kept. -/
theorem filter_eraseDupsBy (k : κ) (l : List α) :
    (l.eraseDupsBy fun a b => key a == key b).filter (fun a => key a == k) =
      (l.find? fun a => key a == k).toList := by
  induction l using parts_induction with
  | nil => rfl
  | cons a l ih =>
    rw [List.eraseDupsBy_cons, List.filter_cons, List.find?_cons, ih]
    by_cases ha : key a = k
    · -- the rest has lost the key
      simp [ha]
    · have hkept : (l.filter fun b => decide ((key b == key a) = false)).find?
          (fun b => key b == k) = l.find? fun b => key b == k := by
        rw [List.find?_filter]
        congr 1
        funext b
        by_cases hb : key b = k <;> simp [hb, Ne.symm ha]
      simp only [hkept, beq_eq_false_iff_ne.mpr ha]
      rfl

theorem eraseDupsBy_of_nodup {l : List α} (h : (l.map key).Nodup) :
    (l.eraseDupsBy fun a b => key a == key b) = l := by
  induction l with
  | nil => rfl
  | cons a l ih =>
    rw [List.map_cons, List.nodup_cons] at h
    have hkeep : (l.filter fun b => decide ((key b == key a) = false)) = l := by
      refine List.filter_eq_self.mpr fun b hb => ?_
      have hne : key b ≠ key a := fun heq => h.1 (heq ▸ List.mem_map_of_mem hb)
      simpa using hne
    rw [List.eraseDupsBy_cons, hkeep, ih h.2]

end Keys

/-! ## Elements that are equal -/

variable [BEq α] [LawfulBEq α]

theorem eraseDups_filter (p : α → Bool) (l : List α) :
    (l.filter p).eraseDups = l.eraseDups.filter p :=
  eraseDupsBy_filter (fun _ _ h => congrArg p (eq_of_beq h)) l

theorem nodup_eraseDups (l : List α) : l.eraseDups.Nodup := by
  induction l using parts_induction with
  | nil => exact List.nodup_nil
  | cons a l ih =>
    -- the rest has lost every copy of the head
    rw [List.eraseDups_cons, List.nodup_cons]
    exact ⟨by simp, ih _⟩

theorem eraseDups_of_nodup {l : List α} (h : l.Nodup) : l.eraseDups = l :=
  eraseDupsBy_of_nodup id (by simpa using h)

theorem eraseDups_eraseDups (l : List α) : l.eraseDups.eraseDups = l.eraseDups :=
  eraseDups_of_nodup (nodup_eraseDups l)

/-- An element at the end counts only if it is new. -/
theorem eraseDups_append_singleton (l : List α) (a : α) :
    (l ++ [a]).eraseDups = if a ∈ l then l.eraseDups else l.eraseDups ++ [a] := by
  rw [List.eraseDups_append]
  by_cases ha : a ∈ l <;> simp [ha, List.removeAll, List.eraseDups_cons]

theorem eraseDups_append_left (l m : List α) :
    (l.eraseDups ++ m).eraseDups = (l ++ m).eraseDups := by
  have hsame : m.removeAll l.eraseDups = m.removeAll l := by
    refine List.filter_congr fun b _ => ?_
    simp
  rw [List.eraseDups_append, List.eraseDups_append, eraseDups_eraseDups, hsame]

theorem eraseDups_append_right (l m : List α) :
    (l ++ m.eraseDups).eraseDups = (l ++ m).eraseDups := by
  have hsame : (m.eraseDups.removeAll l).eraseDups = (m.removeAll l).eraseDups := by
    rw [List.removeAll, eraseDups_filter, eraseDups_eraseDups, List.removeAll, eraseDups_filter]
  rw [List.eraseDups_append, List.eraseDups_append, hsame]

end OverloadSuite.FirstOccurrences
