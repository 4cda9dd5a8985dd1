import IngressControl.Numeral.Reading
import IngressControl.Proofs.Pieces

/-! Texts that write whole numbers. Digits of any script with single underscores between them, a
sign in front of them and blanks around are what is read, and nothing else is. -/

namespace IngressControl

namespace Numeral

/-- Digits with single underscores between them, and their values. -/
inductive Row : List Char → List Nat → Prop
  | last {c : Char} {d : Nat} (digit : Text.digitValue? c = some d) : Row [c] [d]
  | next {c : Char} {d : Nat} {cs : List Char} {ds : List Nat}
      (digit : Text.digitValue? c = some d) (rest : Row cs ds) : Row (c :: cs) (d :: ds)
  | skip {c : Char} {d : Nat} {cs : List Char} {ds : List Nat}
      (digit : Text.digitValue? c = some d) (rest : Row cs ds) : Row (c :: '_' :: cs) (d :: ds)

inductive Sign : List Char → Bool → Prop
  | absent : Sign [] false
  | plus : Sign ['+'] false
  | minus : Sign ['-'] true

/-- A text writes a whole number: a sign and not too many digits between blanks. -/
def Writes (s : String) (n : Int) : Prop :=
  ∃ front sign negative row ds back, s.toList = front ++ (sign ++ row) ++ back ∧
    (∀ c ∈ front, isPadding c = true) ∧ (∀ c ∈ back, isPadding c = true) ∧
    Sign sign negative ∧ Row row ds ∧ ds.length ≤ maxDigits ∧
    n = if negative then -(ofDigits ds : Int) else ofDigits ds

section Rows

variable {cs rest : List Char} {ds more : List Nat}

theorem Row.ne_nil (h : Row cs ds) : ds ≠ [] := by cases h <;> exact List.cons_ne_nil _ _

/-- A row begins and ends with a digit. -/
theorem Row.ends (h : Row cs ds) : (∃ c tail d, cs = c :: tail ∧ Text.digitValue? c = some d) ∧
    ∃ c d, cs.getLast? = some c ∧ Text.digitValue? c = some d := by
  induction h with
  | last digit => exact ⟨⟨_, _, _, rfl, digit⟩, _, _, rfl, digit⟩
  | next digit rest ih =>
    obtain ⟨⟨c, tail, d, rfl, -⟩, c', d', hlast, hdigit⟩ := ih
    exact ⟨⟨_, _, _, rfl, digit⟩, c', d', by rw [List.getLast?_cons_cons, hlast], hdigit⟩
  | skip digit rest ih =>
    obtain ⟨⟨c, tail, d, rfl, -⟩, c', d', hlast, hdigit⟩ := ih
    refine ⟨⟨_, _, _, rfl, digit⟩, c', d', ?_, hdigit⟩
    rw [List.getLast?_cons_cons, List.getLast?_cons_cons, hlast]

theorem Row.append (h : Row cs ds) (h' : Row rest more) :
    Row (cs ++ '_' :: rest) (ds ++ more) := by
  induction h with
  | last digit => exact .skip digit h'
  | next digit _ ih => exact .next digit ih
  | skip digit _ ih => exact .skip digit ih

theorem takeDigits_cons {c : Char} {d : Nat} (h : Text.digitValue? c = some d) (cs : List Char) :
    takeDigits (c :: cs) = (d :: (takeDigits cs).1, (takeDigits cs).2) := by
  rw [takeDigits, h]

theorem takeDigits_of_none {c : Char} (h : Text.digitValue? c = none) (cs : List Char) :
    takeDigits (c :: cs) = ([], c :: cs) := by
  rw [takeDigits, h]

/-- The digits that are taken make a row. -/
theorem takeDigits_spec (cs : List Char) : takeDigits cs = ([], cs) ∨
    ∃ row, cs = row ++ (takeDigits cs).2 ∧ Row row (takeDigits cs).1 := by
  induction cs with
  | nil => exact Or.inl rfl
  | cons c cs ih =>
    cases hc : Text.digitValue? c with
    | none => exact Or.inl (takeDigits_of_none hc cs)
    | some d =>
      rw [takeDigits_cons hc]
      rcases ih with hnone | ⟨row, hsplit, hrow⟩
      · rw [hnone]
        exact Or.inr ⟨[c], rfl, .last hc⟩
      · exact Or.inr ⟨c :: row, congrArg (c :: ·) hsplit, .next hc hrow⟩

/-- Of a row the digits up to the first underscore are taken. -/
theorem Row.takeDigits (h : Row cs ds) : takeDigits cs = (ds, []) ∨
    ∃ first rest more, Numeral.takeDigits cs = (first, '_' :: rest) ∧ first ≠ [] ∧ Row rest more ∧
      ds = first ++ more := by
  induction h with
  | last digit => exact Or.inl (takeDigits_cons digit [])
  | @next c d cs ds digit _ ih =>
    rw [takeDigits_cons digit]
    rcases ih with hall | ⟨first, rest, more, hfirst, -, hrow, rfl⟩
    · rw [hall]
      exact Or.inl rfl
    · rw [hfirst]
      exact Or.inr ⟨d :: first, rest, more, rfl, List.cons_ne_nil _ _, hrow, rfl⟩
  | @skip c d cs ds digit hrow _ =>
    have hunderscore : Text.digitValue? '_' = none := by decide
    rw [takeDigits_cons digit, takeDigits_of_none hunderscore]
    exact Or.inr ⟨[d], cs, ds, rfl, List.cons_ne_nil _ _, hrow, rfl⟩

theorem takeGroups.go_of_none {fuel : Nat} (h : takeDigits cs = ([], rest)) :
    takeGroups.go (fuel + 1) cs = ([], cs) := by
  rw [takeGroups.go, h]

/-- Digits that no underscore follows are the last group. -/
theorem takeGroups.go_of_last {fuel : Nat} (h : takeDigits cs = (ds, rest)) (hne : ds ≠ [])
    (hrest : ∀ more, rest ≠ '_' :: more) : takeGroups.go (fuel + 1) cs = (ds, rest) := by
  rw [takeGroups.go, h]
  split
  · next hds => exact absurd (congrArg Prod.fst hds) hne
  · next hds => exact absurd (congrArg Prod.snd hds) (hrest _)
  · next hds => rw [hds]

/-- Behind an underscore the next group is taken, if there is one. -/
theorem takeGroups.go_of_underscore {fuel : Nat} (h : takeDigits cs = (ds, '_' :: rest))
    (hne : ds ≠ []) : takeGroups.go (fuel + 1) cs =
      if (takeGroups.go fuel rest).1 = [] then (ds, '_' :: rest)
      else (ds ++ (takeGroups.go fuel rest).1, (takeGroups.go fuel rest).2) := by
  obtain ⟨d, ds, rfl⟩ := List.exists_cons_of_ne_nil hne
  rw [takeGroups.go, h]
  rcases hnext : takeGroups.go fuel rest with ⟨_ | ⟨e, more⟩, left⟩
  · simp [hnext]
  · simp [hnext]

/-- The groups that are taken make a row, whatever the fuel. -/
theorem takeGroups.go_spec (fuel : Nat) (cs : List Char) : takeGroups.go fuel cs = ([], cs) ∨
    ∃ row, cs = row ++ (takeGroups.go fuel cs).2 ∧ Row row (takeGroups.go fuel cs).1 := by
  induction fuel generalizing cs with
  | zero => exact Or.inl rfl
  | succ fuel ih =>
    rcases takeDigits_spec cs with hnone | ⟨row, hsplit, hrow⟩
    · exact Or.inl (takeGroups.go_of_none hnone)
    · refine Or.inr ?_
      by_cases hunderscore : ∃ rest, (takeDigits cs).2 = '_' :: rest
      · obtain ⟨rest, hrest⟩ := hunderscore
        rw [hrest] at hsplit
        rw [takeGroups.go_of_underscore (Prod.ext rfl hrest) hrow.ne_nil]
        -- an underscore that no digit follows is given back to the rest
        rcases ih rest with hnone | ⟨row', hsplit', hrow'⟩
        · rw [if_pos (congrArg Prod.fst hnone)]
          exact ⟨row, hsplit, hrow⟩
        · rw [if_neg hrow'.ne_nil]
          refine ⟨row ++ '_' :: row', ?_, hrow.append hrow'⟩
          rw [List.append_assoc, List.cons_append, ← hsplit', ← hsplit]
      · have hlast : ∀ more, (takeDigits cs).2 ≠ '_' :: more := fun more h => hunderscore ⟨more, h⟩
        rw [takeGroups.go_of_last (Prod.ext rfl rfl) hrow.ne_nil hlast]
        exact ⟨row, hsplit, hrow⟩

/-- Of a row all is taken. -/
theorem Row.go_takeGroups (h : Row cs ds) {fuel : Nat} (hfuel : cs.length ≤ fuel) :
    takeGroups.go fuel cs = (ds, []) := by
  induction fuel generalizing cs ds with
  | zero => cases h <;> exact absurd hfuel (Nat.not_succ_le_zero _)
  | succ fuel ih =>
    rcases h.takeDigits with hall | ⟨first, rest, more, hfirst, hne, hrow, rfl⟩
    · exact takeGroups.go_of_last hall h.ne_nil (fun _ => nofun)
    · -- the fuel is enough for the rest, since a digit and the underscore are gone
      have hshorter : rest.length < cs.length := by
        rcases takeDigits_spec cs with hnone | ⟨row, hsplit, -⟩
        · exact absurd (congrArg Prod.fst (hfirst.symm.trans hnone)) hne
        · rw [hfirst] at hsplit
          rw [hsplit, List.length_append, List.length_cons]
          omega
      have hrest : takeGroups.go fuel rest = (more, []) := ih hrow (by omega)
      rw [takeGroups.go_of_underscore hfirst hne, hrest, if_neg hrow.ne_nil]

/-- Digits that make up a whole text are those of a row. -/
theorem takeGroups_eq_iff (hne : ds ≠ []) : takeGroups cs = (ds, []) ↔ Row cs ds := by
  constructor
  · intro h
    rcases takeGroups.go_spec cs.length cs with hnone | ⟨row, hsplit, hrow⟩
    · exact absurd (congrArg Prod.fst (h.symm.trans hnone)) hne
    · rw [← takeGroups, h] at hsplit hrow
      rw [hsplit, List.append_nil]
      exact hrow
  · exact fun h => h.go_takeGroups (Nat.le_refl _)

end Rows

theorem isPadding_of_digit {c : Char} {d : Nat} (h : Text.digitValue? c = some d) :
    isPadding c = false := by
  -- each script has ten digits in a row, so there are few enough to go through
  have hcodes : ∀ start ∈ Text.decimalZeros, ∀ k < 10,
      Text.isBlank (Char.ofNat (start + k)) = false := by decide +kernel
  obtain ⟨start, hfind, -⟩ := Option.map_eq_some_iff.mp h
  have hmem := List.mem_of_find?_eq_some hfind
  have hrange := List.find?_some hfind
  simp only [Bool.and_eq_true, decide_eq_true_eq] at hrange
  have hblank := hcodes start hmem (c.toNat - start) (by omega)
  rw [Nat.add_sub_cancel' hrange.1, Char.ofNat_toNat] at hblank
  rw [isPadding, hblank, Bool.false_and]

section Signs

variable {sign row cs : List Char} {ds : List Nat} {negative : Bool}

/-- What is taken is a sign. -/
theorem takeSign_spec (cs : List Char) :
    ∃ sign, cs = sign ++ (takeSign cs).2 ∧ Sign sign (takeSign cs).1 := by
  rw [takeSign.eq_def]
  split
  · exact ⟨['-'], rfl, .minus⟩
  · exact ⟨['+'], rfl, .plus⟩
  · exact ⟨[], rfl, .absent⟩

/-- The sign in front of a row is taken and no more. -/
theorem Sign.takeSign (h : Sign sign negative) (hrow : Row row ds) :
    takeSign (sign ++ row) = (negative, row) := by
  cases h with
  | plus => rfl
  | minus => rfl
  | absent =>
    have hminus : Text.digitValue? '-' = none := by decide
    have hplus : Text.digitValue? '+' = none := by decide
    obtain ⟨⟨c, tail, d, rfl, hdigit⟩, -⟩ := hrow.ends
    rw [List.nil_append, Numeral.takeSign.eq_def]
    split
    · next heq => simp [(List.cons.inj heq).1, hminus] at hdigit
    · next heq => simp [(List.cons.inj heq).1, hplus] at hdigit
    · rfl

/-- Blanks around a sign and a row are all that is trimmed. -/
theorem Sign.trimBy (h : Sign sign negative) (hrow : Row row ds) {front back : List Char}
    (hf : ∀ c ∈ front, isPadding c = true) (hb : ∀ c ∈ back, isPadding c = true) :
    Text.trimBy isPadding (front ++ (sign ++ row) ++ back) = sign ++ row := by
  obtain ⟨⟨c, tail, d, rfl, hfirst⟩, c', d', hend, hlast⟩ := hrow.ends
  refine Text.trimBy_append hf hb ?_ ?_ (by simp)
  · cases h with
    | plus => exact fun c hc => Option.some.inj hc ▸ by decide
    | minus => exact fun c hc => Option.some.inj hc ▸ by decide
    | absent => exact fun c hc => Option.some.inj hc ▸ isPadding_of_digit hfirst
  · rw [List.getLast?_append_of_ne_nil _ (List.cons_ne_nil _ _), hend]
    exact fun c hc => Option.some.inj hc ▸ isPadding_of_digit hlast

end Signs

/-- A whole number is read exactly if the trimmed text is an optional sign and groups of digits, not
too many. -/
theorem readWhole_eq_ok_iff (s : String) (n : Int) : readWhole s = .ok n ↔
    ∃ ds, takeGroups (takeSign (Text.trimBy isPadding s.toList)).2 = (ds, []) ∧ ds ≠ [] ∧
      ds.length ≤ maxDigits ∧ n = if (takeSign (Text.trimBy isPadding s.toList)).1 then
        -(ofDigits ds : Int) else ofDigits ds := by
  constructor
  · intro h
    rw [readWhole] at h
    dsimp only at h
    split at h
    · cases h
    · next ds rest hne hgroups =>
      split at h
      · cases h
      · split at h
        · cases h
        · next hfew =>
          split at h
          · next hall =>
            rw [List.isEmpty_iff.mp hall] at hgroups
            exact ⟨ds, hgroups, hne, Nat.not_lt.mp hfew,
              (Except.ok.inj h).symm⟩
          · cases h
  · rintro ⟨ds, hgroups, hne, hfew, rfl⟩
    obtain ⟨d, ds, rfl⟩ := List.exists_cons_of_ne_nil hne
    rw [readWhole]
    simp only [hgroups]
    rw [if_neg (by simp), if_neg (Nat.not_lt.mpr hfew)]
    rfl

/-- Exactly the texts that write a whole number are read, as that number. -/
theorem readWhole_iff_writes (s : String) (n : Int) : readWhole s = .ok n ↔ Writes s n := by
  rw [readWhole_eq_ok_iff]
  constructor
  · rintro ⟨ds, hgroups, hne, hfew, rfl⟩
    obtain ⟨front, back, hsplit, hf, hb⟩ := Text.exists_trimBy isPadding s.toList
    obtain ⟨sign, hsigned, hsign⟩ := takeSign_spec (Text.trimBy isPadding s.toList)
    rw [hsigned] at hsplit
    exact ⟨front, sign, _, _, ds, back, hsplit, hf, hb, hsign, (takeGroups_eq_iff hne).mp hgroups,
      hfew, rfl⟩
  · rintro ⟨front, sign, negative, row, ds, back, hsplit, hf, hb, hsign, hrow, hfew, rfl⟩
    rw [hsplit, hsign.trimBy hrow hf hb, hsign.takeSign hrow]
    exact ⟨ds, (takeGroups_eq_iff hrow.ne_nil).mpr hrow, hrow.ne_nil, hfew, rfl⟩

/-- A text that is not read writes no whole number, or one of too many digits. -/
theorem readWhole_fault {s : String} {fault : Fault} (h : readWhole s = .error fault) :
    fault = .wholeNumber s ∨ ∃ digits, fault = .tooManyDigits digits := by
  rw [readWhole] at h
  dsimp only at h
  split at h
  · exact Or.inl (Except.error.inj h).symm
  · split at h
    · exact Or.inl (Except.error.inj h).symm
    · split at h
      · exact Or.inr ⟨_, (Except.error.inj h).symm⟩
      · split at h
        · cases h
        · exact Or.inl (Except.error.inj h).symm

end Numeral

end IngressControl
