import IngressControl.Document.Json.Reader
import IngressControl.Document.Json.Writer
import IngressControl.Proofs.Arn
import IngressControl.Proofs.Ledger
import Mathlib.Data.Nat.Digits.Defs

/-! Texts in JSON. Whatever characters a text has, it is written in printable ASCII and reads back
as itself, and so does an object whose values are texts. -/

namespace IngressControl

namespace Text

/-- A number below the power has as many hexadecimal digits as asked for. -/
theorem length_hexDigits {width n : Nat} (hw : 0 < width) (hn : n < 16 ^ width) :
    (hexDigits width n).length = width := by
  have hle : (Nat.toDigits 16 n).length ≤ width := Nat.toDigits_length 16 n width hw hn
  rw [hexDigits, List.length_append, List.length_replicate]
  omega

theorem hexValue?_of_mem_hexDigits {width n : Nat} {c : Char} (h : c ∈ hexDigits width n) :
    (hexValue? c).isSome := by
  rcases List.mem_append.mp h with h | h
  · rw [List.eq_of_mem_replicate h]
    rfl
  · exact hexValue?_of_mem_toDigits n c h

end Text

namespace Json

open Text (hexDigits hexValue?)

/-- Four hexadecimal digits read back as the code unit that they write. -/
theorem hexQuad?_hexDigits {n : Nat} (hn : n < 0x10000) : hexQuad? (hexDigits 4 n) = some n := by
  have hlength : (hexDigits 4 n).length = 4 := Text.length_hexDigits (by decide) hn
  have hvalue : Text.hexNumber 0 (hexDigits 4 n) = n := Text.hexNumber_hexDigits 4 n
  have hdigit : ∀ c ∈ hexDigits 4 n, (hexValue? c).isSome := fun c h =>
    Text.hexValue?_of_mem_hexDigits h
  match hexDigits 4 n, hlength, hvalue, hdigit with
  | [a, b, c, d], _, hvalue, hdigit =>
    obtain ⟨a', ha⟩ := Option.isSome_iff_exists.mp (hdigit a (by simp))
    obtain ⟨b', hb⟩ := Option.isSome_iff_exists.mp (hdigit b (by simp))
    obtain ⟨c', hc⟩ := Option.isSome_iff_exists.mp (hdigit c (by simp))
    obtain ⟨d', hd⟩ := Option.isSome_iff_exists.mp (hdigit d (by simp))
    simp only [Text.hexNumber, List.foldl_cons, List.foldl_nil, ha, hb, hc, hd,
      Option.getD_some] at hvalue
    simp only [hexQuad?, ha, hb, hc, hd, Option.bind_eq_bind, Option.bind_some, Option.pure_def,
      Option.some.injEq]
    omega

inductive Escapes (c : Char) : List Char → Prop
  | plain (low : 0x20 ≤ c.toNat) (high : c.toNat < 0x7f) (quote : c ≠ '"') (backslash : c ≠ '\\') :
      Escapes c [c]
  | letter (e : Char) (letter : e ∈ ['"', '\\', 'b', 'f', 'n', 'r', 't'])
      (reads : simpleEscape? e = some c) : Escapes c ['\\', e]
  | unit (basic : c.toNat < 0x10000) : Escapes c ('\\' :: 'u' :: hexDigits 4 c.toNat)
  | pair (beyond : 0x10000 ≤ c.toNat) :
      Escapes c ('\\' :: 'u' :: hexDigits 4 (0xd800 + (c.toNat - 0x10000) / 0x400) ++
        '\\' :: 'u' :: hexDigits 4 (0xdc00 + (c.toNat - 0x10000) % 0x400))

/-- Every character is written in one of the four ways. -/
theorem escapes_escape (c : Char) : Escapes c (escape c) := by
  unfold escape
  split
  · rename_i h; subst h; exact .letter '"' (by simp) rfl
  split
  · rename_i h; subst h; exact .letter '\\' (by simp) rfl
  split
  · rename_i h; subst h; exact .letter 'n' (by simp) rfl
  split
  · rename_i h; subst h; exact .letter 'r' (by simp) rfl
  split
  · rename_i h; subst h; exact .letter 't' (by simp) rfl
  split
  · rename_i h; subst h; exact .letter 'b' (by simp) rfl
  split
  · rename_i h; subst h; exact .letter 'f' (by simp) rfl
  split
  · rename_i hquote hbackslash _ _ _ _ _ hprints
    exact .plain hprints.1 hprints.2 hquote hbackslash
  · unfold codeUnits
    split
    · rename_i hbasic
      rw [List.flatMap_singleton]
      exact .unit hbasic
    · rename_i hbeyond
      rw [List.flatMap_cons, List.flatMap_singleton]
      exact .pair (Nat.not_lt.mp hbeyond)

section Read

variable {high low : Nat} {tail : List Char}

/-- A code unit that is no surrogate reads back as its character, unless the text ends behind it. -/
theorem readUnicode_unit {n : Nat} (hn : n < 0x10000) (hs : n < 0xd800 ∨ 0xdfff < n)
    (ht : tail ≠ []) : readUnicode ('u' :: (hexDigits 4 n ++ tail)) = .ok (Char.ofNat n, tail) := by
  have hlength : (hexDigits 4 n).length = 4 := Text.length_hexDigits (by decide) hn
  have hpos : 0 < tail.length := List.length_pos_iff.mpr ht
  have hlong : ¬ (hexDigits 4 n ++ tail).length ≤ 4 := by
    rw [List.length_append, hlength]
    omega
  have hhigh : ¬ (0xd800 ≤ n ∧ n ≤ 0xdbff) := by omega
  have hlow : ¬ (0xdc00 ≤ n ∧ n ≤ 0xdfff) := by omega
  simp only [readUnicode, List.drop_succ_cons, List.drop_zero, if_neg hlong,
    List.take_left' hlength, List.drop_left' hlength, hexQuad?_hexDigits hn, if_neg hhigh,
    if_neg hlow]

/-- A pair of surrogates reads back as the character that it stands for. -/
theorem readUnicode_pair (hhigh : 0xd800 ≤ high ∧ high ≤ 0xdbff)
    (hlow : 0xdc00 ≤ low ∧ low ≤ 0xdfff) (ht : tail ≠ []) :
    readUnicode ('u' :: (hexDigits 4 high ++ '\\' :: 'u' :: (hexDigits 4 low ++ tail))) =
      .ok (Char.ofNat (joinSurrogates high low), tail) := by
  have hlength {n : Nat} (hn : n < 0x10000) : (hexDigits 4 n).length = 4 :=
    Text.length_hexDigits (by decide) hn
  have hhigh' : high < 0x10000 := by omega
  have hlow' : low < 0x10000 := by omega
  have hpos : 0 < tail.length := List.length_pos_iff.mpr ht
  have hlong : ¬ (hexDigits 4 high ++ '\\' :: 'u' :: (hexDigits 4 low ++ tail)).length ≤ 4 := by
    simp only [List.length_append, List.length_cons, hlength hhigh']
    omega
  have hmore : ¬ ('\\' :: 'u' :: (hexDigits 4 low ++ tail)).length ≤ 6 := by
    simp only [List.length_append, List.length_cons, hlength hlow']
    omega
  simp only [readUnicode, List.drop_succ_cons, List.drop_zero, if_neg hlong,
    List.take_left' (hlength hhigh'), List.drop_left' (hlength hhigh'),
    hexQuad?_hexDigits hhigh', if_pos hhigh, if_neg hmore, List.take_left' (hlength hlow'),
    List.drop_left' (hlength hlow'), hexQuad?_hexDigits hlow', if_pos hlow]

/-- A character that needs no escape is read as it stands. -/
theorem readText_plain (start fuel : Nat) {c : Char} (hquote : c ≠ '"') (hbackslash : c ≠ '\\')
    (hcontrol : 0x20 ≤ c.toNat) : readText start (fuel + 1) (c :: tail) =
      (readText start fuel tail).map (fun r => (c :: r.1, r.2)) := by
  have hnot : ¬ c.toNat ≤ 0x1f := by omega
  rw [readText.eq_def start (fuel + 1)]
  dsimp only
  rw [if_neg hquote, if_neg hbackslash, if_neg hnot]

theorem readText_letter (start fuel : Nat) {c e : Char} (he : e ≠ 'u')
    (hreads : simpleEscape? e = some c) : readText start (fuel + 1) ('\\' :: e :: tail) =
      (readText start fuel tail).map (fun r => (c :: r.1, r.2)) := by
  simp only [readText, Char.reduceEq, if_false, if_true, if_neg he, hreads]

/-- An escape by code points is read as the character that it stands for. -/
theorem readText_unicode (start fuel : Nat) {c : Char} {digits : List Char}
    (hreads : readUnicode ('u' :: digits) = .ok (c, tail)) :
    readText start (fuel + 1) ('\\' :: 'u' :: digits) =
      (readText start fuel tail).map (fun r => (c :: r.1, r.2)) := by
  simp only [readText, Char.reduceEq, if_false, if_true, hreads]

/-- A written character reads back as itself, unless the text ends behind it. -/
theorem readText_of_escapes (start fuel : Nat) {c : Char} {written : List Char}
    (hc : Escapes c written) (ht : tail ≠ []) :
    readText start (fuel + 1) (written ++ tail) =
      (readText start fuel tail).map (fun r => (c :: r.1, r.2)) := by
  have hvalid : c.toNat.isValidChar := c.valid
  cases hc with
  | plain hlow hhigh hquote hbackslash => exact readText_plain start fuel hquote hbackslash hlow
  | letter e hletter hreads =>
    have hu : e ≠ 'u' := by
      rintro rfl
      cases hreads
    exact readText_letter start fuel hu hreads
  | unit hbasic =>
    have hs : c.toNat < 0xd800 ∨ 0xdfff < c.toNat := by
      rcases hvalid with h | h
      · exact Or.inl h
      · exact Or.inr h.1
    have hunit := readUnicode_unit hbasic hs ht
    rw [Char.ofNat_toNat] at hunit
    exact readText_unicode start fuel hunit
  | pair hbeyond =>
    have htop : c.toNat < 0x110000 := by
      rcases hvalid with h | h
      · omega
      · exact h.2
    have hjoin : joinSurrogates (0xd800 + (c.toNat - 0x10000) / 0x400)
        (0xdc00 + (c.toNat - 0x10000) % 0x400) = c.toNat := by
      unfold joinSurrogates
      omega
    have hhigh : 0xd800 ≤ 0xd800 + (c.toNat - 0x10000) / 0x400 ∧
        0xd800 + (c.toNat - 0x10000) / 0x400 ≤ 0xdbff := by omega
    have hlow : 0xdc00 ≤ 0xdc00 + (c.toNat - 0x10000) % 0x400 ∧
        0xdc00 + (c.toNat - 0x10000) % 0x400 ≤ 0xdfff := by omega
    have hpair := readUnicode_pair hhigh hlow ht
    rw [hjoin, Char.ofNat_toNat] at hpair
    rw [List.append_assoc, List.cons_append, List.cons_append, List.cons_append, List.cons_append]
    exact readText_unicode start fuel hpair

end Read

@[simp] theorem escape_ne_nil (c : Char) : escape c ≠ [] := by
  have hc := escapes_escape c
  generalize escape c = written at hc
  cases hc with
  | plain => exact List.cons_ne_nil _ _
  | letter => exact List.cons_ne_nil _ _
  | unit => exact List.cons_ne_nil _ _
  | pair => exact List.cons_ne_nil _ _

/-- What is written between two quotes reads back up to the second quote. -/
theorem readText_flatMap_escape (start : Nat) {fuel : Nat} {cs : List Char} (hf : cs.length < fuel)
    (rest : List Char) :
    readText start fuel (cs.flatMap escape ++ '"' :: rest) = .ok (cs, rest) := by
  induction cs generalizing fuel with
  | nil =>
    obtain ⟨fuel, rfl⟩ := Nat.exists_eq_succ_of_ne_zero (Nat.ne_of_gt hf)
    rw [List.flatMap_nil, List.nil_append]
    unfold readText
    exact if_pos rfl
  | cons c cs ih =>
    obtain ⟨fuel, rfl⟩ := Nat.exists_eq_succ_of_ne_zero (Nat.ne_zero_of_lt hf)
    have hne : cs.flatMap escape ++ '"' :: rest ≠ [] := by simp
    -- the closing quote stands behind every character, so none of them is at the end of the text
    rw [List.flatMap_cons, List.append_assoc,
      readText_of_escapes start fuel (escapes_escape c) hne, ih (Nat.lt_of_succ_lt_succ hf)]
    rfl

theorem length_le_length_flatMap_escape (cs : List Char) :
    cs.length ≤ (cs.flatMap escape).length := by
  induction cs with
  | nil => exact Nat.le_refl 0
  | cons c cs ih =>
    have hc : 0 < (escape c).length := List.length_pos_iff.mpr (escape_ne_nil c)
    rw [List.flatMap_cons, List.length_append, List.length_cons]
    omega

/-- A written text is its escaped characters between two quotes. -/
theorem toList_writeText (s : String) (rest : List Char) :
    (writeText s).toList ++ rest = '"' :: (s.toList.flatMap escape ++ '"' :: rest) := by
  simp [writeText]

/-- The text after an opening quote is read back, and what follows it is left. -/
theorem readString_flatMap_escape (s : String) (rest : List Char) :
    readString (s.toList.flatMap escape ++ '"' :: rest) = .ok (s, rest) := by
  have hle := length_le_length_flatMap_escape s.toList
  have hfuel : s.toList.length < (s.toList.flatMap escape ++ '"' :: rest).length + 1 := by
    rw [List.length_append]
    omega
  rw [readString, readText_flatMap_escape _ hfuel, Except.map, String.ofList_toList]

theorem skipSpace_of_not_space {c : Char} (h : isSpace c = false) (cs : List Char) :
    skipSpace (c :: cs) = c :: cs := by
  rw [skipSpace, List.dropWhile_cons_of_neg (by simp [h])]

@[simp] theorem skipSpace_space (cs : List Char) : skipSpace (' ' :: cs) = skipSpace cs :=
  List.dropWhile_cons_of_pos rfl

theorem skipSpace_writeText (s : String) (rest : List Char) :
    skipSpace ((writeText s).toList ++ rest) = (writeText s).toList ++ rest := by
  rw [toList_writeText, skipSpace_of_not_space rfl]

/-- A written text is read back as a value at any depth. -/
theorem readValue_writeText (depth fuel : Nat) (s : String) (rest : List Char) :
    readValue depth (fuel + 1) ((writeText s).toList ++ rest) = .ok (.string s, rest) := by
  rw [toList_writeText, readValue]
  rw [readString_flatMap_escape]
  rfl

def fieldChars (field : String × String) : List Char :=
  (writeText field.1).toList ++ ':' :: ' ' :: (writeText field.2).toList

theorem fieldChars_append (field : String × String) (rest : List Char) :
    fieldChars field ++ rest = '"' :: (field.1.toList.flatMap escape ++ '"' :: ':' :: ' ' ::
      ((writeText field.2).toList ++ rest)) := by
  rw [fieldChars, List.append_assoc, toList_writeText, List.cons_append, List.cons_append]

section Fields

variable {depth fuel : Nat} {done : List (String × Document)} {rest : List Char}

/-- The last field of an object is read up to the closing brace. -/
theorem readFields_last (field : String × String) :
    readFields depth (fuel + 2) done (fieldChars field ++ '\x7d' :: rest) =
      .ok (Ledger.put field.1 (.string field.2) done, rest) := by
  have hcolon := skipSpace_of_not_space (c := ':') rfl
  have hbrace := skipSpace_of_not_space (c := '\x7d') rfl
  simp only [fieldChars_append, readFields, readString_flatMap_escape, hcolon, skipSpace_space,
    skipSpace_writeText, readValue_writeText, hbrace]

/-- A field that a comma follows is read, and the rest of the object is left. -/
theorem readFields_next (field : String × String) :
    readFields depth (fuel + 2) done (fieldChars field ++ ',' :: ' ' :: rest) =
      readFields depth (fuel + 1) (Ledger.put field.1 (.string field.2) done) (skipSpace rest) := by
  have hcolon := skipSpace_of_not_space (c := ':') rfl
  have hcomma := skipSpace_of_not_space (c := ',') rfl
  simp only [fieldChars_append, readFields, readString_flatMap_escape, hcolon, skipSpace_space,
    skipSpace_writeText, readValue_writeText, hcomma]

def fieldsChars (fields : List (String × String)) : List Char :=
  [',', ' '].intercalate (fields.map fieldChars)

@[simp] theorem fieldsChars_singleton (field : String × String) :
    fieldsChars [field] = fieldChars field := by
  rw [fieldsChars, List.map_singleton, List.intercalate_singleton]

@[simp] theorem fieldsChars_cons_cons (field next : String × String)
    (others : List (String × String)) :
    fieldsChars (field :: next :: others) =
      fieldChars field ++ ',' :: ' ' :: fieldsChars (next :: others) := by
  simp only [fieldsChars, List.map_cons, List.intercalate_cons_cons, List.append_assoc,
    List.cons_append, List.nil_append]

theorem exists_fieldsChars_append (field : String × String) (others : List (String × String))
    (rest : List Char) : ∃ cs, fieldsChars (field :: others) ++ rest = '"' :: cs := by
  cases others with
  | nil =>
    rw [fieldsChars_singleton, fieldChars_append]
    exact ⟨_, rfl⟩
  | cons next others =>
    rw [fieldsChars_cons_cons, List.append_assoc, fieldChars_append]
    exact ⟨_, rfl⟩

theorem length_lt_length_fieldsChars (field : String × String) (others : List (String × String)) :
    others.length < (fieldsChars (field :: others)).length := by
  induction others generalizing field with
  | nil =>
    rw [fieldsChars_singleton, fieldChars, List.length_append, List.length_cons]
    exact Nat.lt_of_lt_of_le (Nat.succ_pos _) (Nat.le_add_left _ _)
  | cons next others ih =>
    have hrest := ih next
    rw [fieldsChars_cons_cons, List.length_append, List.length_cons, List.length_cons]
    simp only [List.length_cons]
    omega

/-- The key that comes next was not read before. -/
theorem key_not_mem {field : String × String} {others : List (String × String)}
    (hn : (Ledger.keys done ++ (field :: others).map Prod.fst).Nodup) :
    field.1 ∉ Ledger.keys done := by
  intro hmem
  exact (List.nodup_append.mp hn).2.2 _ hmem _ List.mem_cons_self rfl

/-- Written fields read back behind those that were read before, if no key comes twice. -/
theorem readFields_fieldsChars {field : String × String} {others : List (String × String)}
    (hf : others.length + 1 < fuel)
    (hn : (Ledger.keys done ++ (field :: others).map Prod.fst).Nodup) :
    readFields depth fuel done (fieldsChars (field :: others) ++ '\x7d' :: rest) =
      .ok (done ++ (field :: others).map fun f => (f.1, .string f.2), rest) := by
  induction others generalizing field fuel done with
  | nil =>
    obtain ⟨fuel, rfl⟩ : ∃ k, fuel = k + 2 := ⟨fuel - 2, by omega⟩
    simp [readFields_last, Ledger.put_of_not_mem (key_not_mem hn)]
  | cons next others ih =>
    obtain ⟨fuel, rfl⟩ : ∃ k, fuel = k + 2 := ⟨fuel - 2, by omega⟩
    obtain ⟨cs, hcs⟩ := exists_fieldsChars_append next others ('\x7d' :: rest)
    have hspace : skipSpace (fieldsChars (next :: others) ++ '\x7d' :: rest) =
        fieldsChars (next :: others) ++ '\x7d' :: rest := by
      rw [hcs]
      exact skipSpace_of_not_space rfl cs
    -- the field is put behind those before it, and is one of them for the rest
    rw [fieldsChars_cons_cons, List.append_assoc, List.cons_append, List.cons_append,
      readFields_next, hspace, Ledger.put_of_not_mem (key_not_mem hn), ih]
    · rw [List.append_assoc]
      rfl
    · simp only [List.length_cons] at hf
      omega
    · simpa [Ledger.keys] using hn

end Fields

def objectOf (fields : List (String × String)) : Document :=
  .object (fields.map fun f => (f.1, .string f.2))

theorem writeFields_texts (depth : Nat) (fields : List (String × String)) :
    writeFields none depth (fields.map fun f => (f.1, .string f.2)) =
      fields.map fun f => writeText f.1 ++ ": " ++ writeText f.2 := by
  induction fields with
  | nil => rfl
  | cons field others ih =>
    rw [List.map_cons, writeFields, ih]
    rfl

/-- An object of texts is written as its fields between braces. -/
theorem toList_write_objectOf (field : String × String) (others : List (String × String)) :
    (write (objectOf (field :: others))).toList =
      '\x7b' :: (fieldsChars (field :: others) ++ ['\x7d']) := by
  have hparts : ((field :: others).map fun f => writeText f.1 ++ ": " ++ writeText f.2).map
      String.toList = (field :: others).map fieldChars := by
    simp [fieldChars]
  have hcomma : ", ".toList = [',', ' '] := rfl
  rw [write, objectOf, writeAt, writeFields_texts, bracketed, if_neg (by simp)]
  rw [String.toList_append, String.toList_append, String.toList_intercalate, hparts, hcomma]
  rfl

/-- The fields of an object between braces are read back as the object. -/
theorem readValue_fieldsChars {depth fuel : Nat} {field : String × String}
    {others : List (String × String)} (hd : 0 < depth) (hf : others.length + 1 < fuel)
    (hn : ((field :: others).map Prod.fst).Nodup) :
    readValue depth (fuel + 1) ('\x7b' :: (fieldsChars (field :: others) ++ ['\x7d'])) =
      .ok (objectOf (field :: others), []) := by
  have hfields : readFields (depth - 1) fuel [] (fieldsChars (field :: others) ++ ['\x7d']) =
      .ok ([] ++ (field :: others).map fun f => (f.1, .string f.2), []) :=
    readFields_fieldsChars hf hn
  obtain ⟨cs, hcs⟩ := exists_fieldsChars_append field others ['\x7d']
  have hspace := skipSpace_of_not_space (c := '"') rfl cs
  rw [hcs] at hfields ⊢
  simp only [readValue, if_neg (Nat.ne_of_gt hd), hspace]
  change Except.map _ (readFields (depth - 1) fuel [] ('"' :: cs)) = _
  rw [hfields]
  rfl

/-- An object whose values are texts reads back as itself, whatever the texts are. -/
theorem read_write_objectOf {fields : List (String × String)} (hne : fields ≠ [])
    (hn : (fields.map Prod.fst).Nodup) :
    read (write (objectOf fields)) = .ok (objectOf fields) := by
  obtain ⟨field, others, rfl⟩ := List.exists_cons_of_ne_nil hne
  have hchars : readChars (write (objectOf (field :: others))).toList =
      .ok (objectOf (field :: others)) := by
    have hlength := length_lt_length_fieldsChars field others
    rw [toList_write_objectOf, readChars, if_neg (by simp), skipSpace_of_not_space rfl,
      readValue_fieldsChars (by decide) _ hn]
    · rfl
    · simp only [List.length_cons, List.length_append]
      omega
  rw [read, hchars]

section Ascii

/-- The character is printable ASCII. In particular, it ends no line. -/
def Plain (c : Char) : Prop := 0x20 ≤ c.toNat ∧ c.toNat < 0x7f

instance : DecidablePred Plain := fun c =>
  inferInstanceAs (Decidable (0x20 ≤ c.toNat ∧ c.toNat < 0x7f))

variable {c d : Char}

theorem plain_of_all {cs : List Char} (h : cs.all (fun c => decide (Plain c)) = true) :
    ∀ c ∈ cs, Plain c := by
  intro c hc
  exact of_decide_eq_true (List.all_eq_true.mp h c hc)

theorem plain_of_hexValue? (h : (hexValue? c).isSome) : Plain c := by
  unfold hexValue? at h
  dsimp only at h
  unfold Plain
  split at h
  · omega
  split at h
  · omega
  split at h
  · omega
  · cases h

/-- Every character of an escape is plain ASCII. -/
theorem plain_of_escapes {written : List Char} (hc : Escapes c written) :
    ∀ d ∈ written, Plain d := by
  have hbackslash : Plain '\\' := by decide
  have hu : Plain 'u' := by decide
  have hunit (n : Nat) : ∀ d ∈ '\\' :: 'u' :: hexDigits 4 n, Plain d := by
    intro d hd
    rcases List.mem_cons.mp hd with rfl | hd
    · exact hbackslash
    rcases List.mem_cons.mp hd with rfl | hd
    · exact hu
    · exact plain_of_hexValue? (Text.hexValue?_of_mem_hexDigits hd)
  cases hc with
  | plain hlow hhigh hquote hnot =>
    intro d hd
    obtain rfl := List.mem_singleton.mp hd
    exact ⟨hlow, hhigh⟩
  | letter e hletter hreads =>
    have hletters : ∀ e ∈ ['"', '\\', 'b', 'f', 'n', 'r', 't'], Plain e :=
      plain_of_all (by decide)
    intro d hd
    rcases List.mem_cons.mp hd with rfl | hd
    · exact hbackslash
    · rw [List.mem_singleton.mp hd]
      exact hletters e hletter
  | unit hbasic => exact hunit _
  | pair hbeyond =>
    intro d hd
    rcases List.mem_append.mp hd with hd | hd
    · exact hunit _ d hd
    · exact hunit _ d hd

/-- A written text holds plain ASCII only. -/
theorem plain_of_mem_writeText {s : String} (hd : d ∈ (writeText s).toList) : Plain d := by
  have hquote : Plain '"' := by decide
  rw [writeText, String.toList_ofList] at hd
  rcases List.mem_cons.mp hd with rfl | hd
  · exact hquote
  rcases List.mem_append.mp hd with hd | hd
  · obtain ⟨c, -, hc⟩ := List.mem_flatMap.mp hd
    exact plain_of_escapes (escapes_escape c) d hc
  · rw [List.mem_singleton.mp hd]
    exact hquote

theorem plain_of_mem_fieldChars {field : String × String} (hd : d ∈ fieldChars field) :
    Plain d := by
  have hcolon : Plain ':' := by decide
  have hspace : Plain ' ' := by decide
  rcases List.mem_append.mp hd with hd | hd
  · exact plain_of_mem_writeText hd
  rcases List.mem_cons.mp hd with rfl | hd
  · exact hcolon
  rcases List.mem_cons.mp hd with rfl | hd
  · exact hspace
  · exact plain_of_mem_writeText hd

theorem plain_of_mem_fieldsChars {field : String × String} {others : List (String × String)}
    (hd : d ∈ fieldsChars (field :: others)) : Plain d := by
  have hcomma : Plain ',' := by decide
  have hspace : Plain ' ' := by decide
  induction others generalizing field with
  | nil =>
    rw [fieldsChars_singleton] at hd
    exact plain_of_mem_fieldChars hd
  | cons next others ih =>
    rw [fieldsChars_cons_cons] at hd
    rcases List.mem_append.mp hd with hd | hd
    · exact plain_of_mem_fieldChars hd
    rcases List.mem_cons.mp hd with rfl | hd
    · exact hcomma
    rcases List.mem_cons.mp hd with rfl | hd
    · exact hspace
    · exact ih hd

/-- An object of texts is written on one line, in ASCII. -/
theorem plain_of_mem_write_objectOf {fields : List (String × String)} (hne : fields ≠ [])
    (hd : d ∈ (write (objectOf fields)).toList) : Plain d := by
  have hopen : Plain '\x7b' := by decide
  have hclose : Plain '\x7d' := by decide
  obtain ⟨field, others, rfl⟩ := List.exists_cons_of_ne_nil hne
  rw [toList_write_objectOf] at hd
  rcases List.mem_cons.mp hd with rfl | hd
  · exact hopen
  rcases List.mem_append.mp hd with hd | hd
  · exact plain_of_mem_fieldsChars hd
  · rw [List.mem_singleton.mp hd]
    exact hclose

end Ascii

end Json

end IngressControl
