import IngressControl.Proofs.Pieces

/-! Comma separated entries. A text lists the entries that stand between its commas, without the
blanks around them, and these are what is read. Texts with a comma between them are read one after
the other, and joined entries are read back exactly if each of them is not empty, holds no comma and
has no blank at either end. -/

namespace IngressControl.Text.Entries

def Blank (s : String) : Prop := ∀ c ∈ s.toList, isBlank c = true

/-- An entry with something in it, no comma and no blank at either end. -/
structure Plain (entry : String) : Prop where
  nonempty : entry ≠ ""
  comma : ',' ∉ entry.toList
  first : ∀ c ∈ entry.toList.head?, isBlank c = false
  last : ∀ c ∈ entry.toList.getLast?, isBlank c = false

inductive Lists : String → List String → Prop
  | nothing {s : String} (blank : Blank s) : Lists s []
  | entry {front entry back : String} (front_blank : Blank front) (plain : Plain entry)
      (back_blank : Blank back) : Lists (front ++ entry ++ back) [entry]
  | comma {s t : String} {entries others : List String} (before : Lists s entries)
      (behind : Lists t others) : Lists (s ++ "," ++ t) (entries ++ others)

theorem Lists.plain {s : String} {entries : List String} (h : Lists s entries) :
    ∀ entry ∈ entries, Plain entry := by
  induction h with
  | nothing => exact fun entry he => absurd he List.not_mem_nil
  | entry _ hplain =>
    intro entry he
    rw [List.mem_singleton.mp he]
    exact hplain
  | comma _ _ ihs iht =>
    intro entry he
    rcases List.mem_append.mp he with he | he
    · exact ihs entry he
    · exact iht entry he

section WithoutCommas

variable {s : String}

theorem Blank.comma (h : Blank s) : ',' ∉ s.toList := fun hc => absurd (h ',' hc) (by decide)

/-- Of a text without commas what is left between its blanks is read, if anything is. -/
theorem parse_of_not_mem (h : ',' ∉ s.toList) :
    parse s = if trim s.toList = [] then [] else [String.ofList (trim s.toList)] := by
  rw [parse, ofChars, pieces_of_not_mem h, List.map_singleton]
  cases htrim : trim s.toList with
  | nil => rfl
  | cons c rest => rfl

theorem Blank.parse_eq (h : Blank s) : parse s = [] := by
  have htrim : trim s.toList = [] := by
    rw [trim, trimBy, List.dropWhile_eq_nil_iff.mpr h]
    rfl
  rw [parse_of_not_mem h.comma, if_pos htrim]

/-- An entry is read from between the blanks around it. -/
theorem Plain.parse_padded {front entry back : String} (h : Plain entry) (hf : Blank front)
    (hb : Blank back) : parse (front ++ entry ++ back) = [entry] := by
  have hne : entry.toList ≠ [] := fun hnil => h.nonempty (String.toList_eq_nil_iff.mp hnil)
  have hlist : (front ++ entry ++ back).toList = front.toList ++ entry.toList ++ back.toList := by
    rw [String.toList_append, String.toList_append]
  have hcomma : ',' ∉ (front ++ entry ++ back).toList := by
    simp [hf.comma, h.comma, hb.comma]
  have htrim : trim (front ++ entry ++ back).toList = entry.toList := by
    rw [hlist]
    exact trimBy_append hf hb h.first h.last hne
  rw [parse_of_not_mem hcomma, htrim, if_neg hne, String.ofList_toList]

theorem lists_of_not_mem (h : ',' ∉ s.toList) : ∃ entries, Lists s entries := by
  obtain ⟨front, back, hsplit, hf, hb⟩ := exists_trimBy isBlank s.toList
  by_cases htrim : trimBy isBlank s.toList = []
  · refine ⟨[], .nothing fun c hc => ?_⟩
    rw [hsplit, htrim, List.append_nil] at hc
    rcases List.mem_append.mp hc with hc | hc
    · exact hf c hc
    · exact hb c hc
  · have hs : s = String.ofList front ++ String.ofList (trimBy isBlank s.toList) ++
        String.ofList back := by
      rw [← String.ofList_append, ← String.ofList_append, ← hsplit, String.ofList_toList]
    have hplain : Plain (String.ofList (trimBy isBlank s.toList)) := by
      constructor
      · exact fun hempty => htrim (String.ofList_eq_empty_iff.mp hempty)
      · rw [String.toList_ofList]
        exact fun hc => h (mem_of_mem_trimBy hc)
      · rw [String.toList_ofList]
        exact not_of_mem_head?_trimBy
      · rw [String.toList_ofList]
        exact not_of_mem_getLast?_trimBy
    rw [hs]
    exact ⟨_, .entry (by simpa [Blank] using hf) hplain (by simpa [Blank] using hb)⟩

end WithoutCommas

/-- A comma between two texts separates their entries. -/
theorem parse_append_comma (s t : String) : parse (s ++ "," ++ t) = parse s ++ parse t := by
  have hlist : (s ++ "," ++ t).toList = s.toList ++ ',' :: t.toList := by simp
  have hchars : ofChars (s ++ "," ++ t).toList = ofChars s.toList ++ ofChars t.toList := by
    rw [hlist, ofChars, pieces_append_sep, List.map_append, List.filter_append]
    rfl
  rw [parse, hchars, List.map_append]
  rfl

theorem Lists.parse_eq {s : String} {entries : List String} (h : Lists s entries) :
    parse s = entries := by
  induction h with
  | nothing hblank => exact hblank.parse_eq
  | entry hfront hplain hback => exact hplain.parse_padded hfront hback
  | comma _ _ ihs iht => rw [parse_append_comma, ihs, iht]

/-- Every text lists some entries: it is cut at its first comma, and the rest is shorter. -/
theorem exists_lists (s : String) : ∃ entries, Lists s entries := by
  induction hn : s.length using Nat.strongRecOn generalizing s with
  | ind n ih =>
    by_cases hcomma : ',' ∈ s.toList
    · obtain ⟨before, behind, hsplit, hbefore⟩ := List.eq_append_cons_of_mem hcomma
      have hs : s = String.ofList before ++ "," ++ String.ofList behind := by
        apply String.toList_inj.mp
        simp [hsplit]
      have hshorter : (String.ofList behind).length < n := by
        rw [← hn, ← String.length_toList (s := s), hsplit]
        simp
        omega
      have hfirst : ',' ∉ (String.ofList before).toList := by rwa [String.toList_ofList]
      obtain ⟨entries, hentries⟩ := lists_of_not_mem hfirst
      obtain ⟨others, hothers⟩ := ih _ hshorter (String.ofList behind) rfl
      rw [hs]
      exact ⟨_, hentries.comma hothers⟩
    · exact lists_of_not_mem hcomma

/-- What is read is what the text lists. -/
theorem parse_eq_iff_lists {s : String} {entries : List String} :
    parse s = entries ↔ Lists s entries := by
  constructor
  · rintro rfl
    obtain ⟨entries, h⟩ := exists_lists s
    rwa [h.parse_eq]
  · exact Lists.parse_eq

theorem plain_of_mem_parse {s entry : String} (h : entry ∈ parse s) : Plain entry :=
  (parse_eq_iff_lists.mp rfl).plain entry h

/-- Joined texts are read one by one. -/
theorem parse_join (texts : List String) : parse (join texts) = texts.flatMap parse := by
  induction texts with
  | nil => rfl
  | cons s rest ih =>
    cases rest with
    | nil => rw [join, String.intercalate_singleton, List.flatMap_singleton]
    | cons t rest =>
      have hjoin : join (s :: t :: rest) = s ++ "," ++ join (t :: rest) :=
        String.intercalate_cons_cons
      rw [hjoin, parse_append_comma, ih]
      exact List.flatMap_cons.symm

theorem Plain.parse_eq {entry : String} (h : Plain entry) : parse entry = [entry] := by
  have hnone : Blank "" := fun c hc => absurd hc List.not_mem_nil
  simpa using h.parse_padded hnone hnone

/-- Entries are read back from their join exactly if all of them are plain. -/
theorem parse_join_eq_iff {entries : List String} :
    parse (join entries) = entries ↔ ∀ entry ∈ entries, Plain entry := by
  constructor
  · intro h entry he
    rw [← h] at he
    exact plain_of_mem_parse he
  · intro h
    calc parse (join entries) = entries.flatMap parse := parse_join entries
      _ = entries.flatMap fun entry => [entry] :=
        List.flatMap_congr fun entry he => (h entry he).parse_eq
      _ = entries := List.flatMap_singleton' entries

/-- Reading yields what a text lists and takes texts apart at the commas between them. All entries
that are read are plain, and plain entries, and no others, are read back when they are joined. -/
theorem parse_inverts_join :
    (∀ s entries, parse s = entries ↔ Lists s entries) ∧
      (∀ s t, parse (s ++ "," ++ t) = parse s ++ parse t) ∧
      (∀ s, ∀ entry ∈ parse s, Plain entry) ∧
      (∀ entries, parse (join entries) = entries ↔ ∀ entry ∈ entries, Plain entry) ∧
      ∀ s, parse (join (parse s)) = parse s := by
  refine ⟨fun s entries => parse_eq_iff_lists, parse_append_comma,
    fun s entry => plain_of_mem_parse, fun entries => parse_join_eq_iff, fun s => ?_⟩
  exact parse_join_eq_iff.mpr fun entry => plain_of_mem_parse

/-- Blanks within an entry are kept, and what is empty without its blanks is left out. -/
example : parse " a b,\u2003,c\n," = ["a b", "c"] := by decide +kernel

end IngressControl.Text.Entries
