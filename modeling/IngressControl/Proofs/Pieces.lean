import IngressControl.Text.Basic
import Mathlib.Data.List.Basic
import Mathlib.Data.List.TakeWhile

/-! Texts in pieces. A text is cut at every separator, so the pieces of two texts with a separator
between them are the pieces of the one and those of the other. What stands before the first
separator and what stands behind the last one are known from the whole. A text that loses a class of
characters at both ends keeps what is between them, which neither begins nor ends in the class. -/

namespace IngressControl.Text

variable {sep : Char}

@[simp] theorem pieces_ne_nil (sep : Char) (cs : List Char) : pieces sep cs ≠ [] := by
  induction cs with
  | nil => exact List.cons_ne_nil _ _
  | cons c cs ih =>
    rw [pieces]
    split
    · exact List.cons_ne_nil _ _
    · split
      · exact List.cons_ne_nil _ _
      · exact List.cons_ne_nil _ _

/-- A character that is no separator belongs to the first piece of what follows it. -/
theorem pieces_cons_of_ne {c : Char} (hc : c ≠ sep) {cs piece : List Char}
    {rest : List (List Char)} (h : pieces sep cs = piece :: rest) :
    pieces sep (c :: cs) = (c :: piece) :: rest := by
  rw [pieces, if_neg hc, h]

theorem pieces_append_sep (xs ys : List Char) :
    pieces sep (xs ++ sep :: ys) = pieces sep xs ++ pieces sep ys := by
  induction xs with
  | nil => simp [pieces]
  | cons x xs ih =>
    by_cases hx : x = sep
    · rw [List.cons_append, pieces, if_pos hx, pieces, if_pos hx, ih, List.cons_append]
    · obtain ⟨piece, rest, hp⟩ := List.exists_cons_of_ne_nil (pieces_ne_nil sep xs)
      rw [hp, List.cons_append] at ih
      rw [List.cons_append, pieces_cons_of_ne hx ih, pieces_cons_of_ne hx hp, List.cons_append]

/-- Without a separator there is one piece. -/
theorem pieces_of_not_mem {cs : List Char} (h : sep ∉ cs) : pieces sep cs = [cs] := by
  induction cs with
  | nil => rfl
  | cons c cs ih =>
    obtain ⟨hc, hcs⟩ := not_or.mp (mt List.mem_cons.mpr h)
    exact pieces_cons_of_ne (Ne.symm hc) (ih hcs)

theorem ne_sep_of_not_mem {cs : List Char} (h : sep ∉ cs) : ∀ c ∈ cs, decide (c ≠ sep) = true := by
  intro c hc
  rw [decide_eq_true_iff]
  rintro rfl
  exact h hc

theorem dropWhile_of_not_mem {cs : List Char} (h : sep ∉ cs) : cs.dropWhile (· ≠ sep) = [] :=
  List.dropWhile_eq_nil_iff.mpr (ne_sep_of_not_mem h)

theorem takeWhile_append_sep {xs : List Char} (h : sep ∉ xs) (ys : List Char) :
    (xs ++ sep :: ys).takeWhile (· ≠ sep) = xs := by
  rw [List.takeWhile_append_of_pos (ne_sep_of_not_mem h)]
  simp

theorem dropWhile_append_sep {xs : List Char} (h : sep ∉ xs) (ys : List Char) :
    (xs ++ sep :: ys).dropWhile (· ≠ sep) = sep :: ys := by
  rw [List.dropWhile_append_of_pos (ne_sep_of_not_mem h)]
  simp

section Ends

variable {xs ys xs' ys' : List Char}

/-- The first separator cuts a text in one way only. -/
theorem eq_of_append_sep (hx : sep ∉ xs) (hx' : sep ∉ xs')
    (h : xs ++ sep :: ys = xs' ++ sep :: ys') :
    xs = xs' ∧ ys = ys' := by
  have hfront := congrArg (List.takeWhile (· ≠ sep)) h
  rw [takeWhile_append_sep hx, takeWhile_append_sep hx'] at hfront
  subst hfront
  exact ⟨rfl, (List.cons.inj (List.append_cancel_left h)).2⟩

/-- The last separator does so as well. -/
theorem eq_of_append_sep_last (hy : sep ∉ ys) (hy' : sep ∉ ys')
    (h : xs ++ sep :: ys = xs' ++ sep :: ys') : ys = ys' := by
  have hrev := congrArg List.reverse h
  simp only [List.reverse_append, List.reverse_cons, List.append_assoc, List.cons_append,
    List.nil_append] at hrev
  have hback := (eq_of_append_sep (mt List.mem_reverse.mp hy) (mt List.mem_reverse.mp hy') hrev).1
  exact List.reverse_injective hback

end Ends

section Trimmed

variable {p : Char → Bool}

/-- What is left of a text is between characters of the class. -/
theorem exists_trimBy (p : Char → Bool) (cs : List Char) : ∃ front back,
    cs = front ++ trimBy p cs ++ back ∧ (∀ c ∈ front, p c = true) ∧ ∀ c ∈ back, p c = true := by
  have hrest : cs.dropWhile p =
      trimBy p cs ++ ((cs.dropWhile p).reverse.takeWhile p).reverse := by
    rw [trimBy, dropEndWhile, ← List.reverse_append, List.takeWhile_append_dropWhile,
      List.reverse_reverse]
  refine ⟨cs.takeWhile p, ((cs.dropWhile p).reverse.takeWhile p).reverse, ?_, ?_, ?_⟩
  · rw [List.append_assoc, ← hrest, List.takeWhile_append_dropWhile]
  · exact fun c hc => List.mem_takeWhile_imp hc
  · exact fun c hc => List.mem_takeWhile_imp (List.mem_reverse.mp hc)

theorem mem_of_mem_trimBy {cs : List Char} {c : Char} (h : c ∈ trimBy p cs) : c ∈ cs := by
  obtain ⟨front, back, hsplit, -, -⟩ := exists_trimBy p cs
  rw [hsplit]
  exact List.mem_append_left back (List.mem_append_right front h)

theorem not_of_mem_head?_dropWhile {cs : List Char} :
    ∀ c ∈ (cs.dropWhile p).head?, p c = false := by
  intro c hc
  have hfirst := List.head?_dropWhile_not p cs
  rw [hc] at hfirst
  exact hfirst

theorem not_of_mem_head?_trimBy {cs : List Char} : ∀ c ∈ (trimBy p cs).head?, p c = false := by
  intro c hc
  have hprefix : trimBy p cs <+: cs.dropWhile p := by
    rw [← List.reverse_suffix, trimBy, dropEndWhile, List.reverse_reverse]
    exact List.dropWhile_suffix p
  obtain ⟨back, hback⟩ := hprefix
  have hhead : c ∈ (cs.dropWhile p).head? := by
    rw [← hback, List.head?_append, hc]
    rfl
  exact not_of_mem_head?_dropWhile c hhead

theorem not_of_mem_getLast?_trimBy {cs : List Char} :
    ∀ c ∈ (trimBy p cs).getLast?, p c = false := by
  rw [trimBy, dropEndWhile, List.getLast?_reverse]
  exact not_of_mem_head?_dropWhile

theorem dropWhile_append_of_all {front cs : List Char} (hf : ∀ c ∈ front, p c = true)
    (hc : ∀ c ∈ cs.head?, p c = false) : (front ++ cs).dropWhile p = cs := by
  rw [List.dropWhile_append_of_pos hf]
  cases cs with
  | nil => rfl
  | cons c cs => rw [List.dropWhile_cons, hc c rfl]; rfl

/-- A text is left if it neither begins nor ends in the class. -/
theorem trimBy_append {front cs back : List Char} (hf : ∀ c ∈ front, p c = true)
    (hb : ∀ c ∈ back, p c = true) (hfirst : ∀ c ∈ cs.head?, p c = false)
    (hlast : ∀ c ∈ cs.getLast?, p c = false) (hne : cs ≠ []) :
    trimBy p (front ++ cs ++ back) = cs := by
  have hhead : ∀ c ∈ (cs ++ back).head?, p c = false := by
    rw [List.head?_append_of_ne_nil _ hne]
    exact hfirst
  have hend : ∀ c ∈ cs.reverse.head?, p c = false := by
    rw [List.head?_reverse]
    exact hlast
  have hback : ∀ c ∈ back.reverse, p c = true := fun c hc => hb c (List.mem_reverse.mp hc)
  rw [trimBy, List.append_assoc, dropWhile_append_of_all hf hhead, dropEndWhile,
    List.reverse_append, dropWhile_append_of_all hback hend, List.reverse_reverse]

end Trimmed

end IngressControl.Text
