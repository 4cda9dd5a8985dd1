import IngressControl.Cloud.Basic
import IngressControl.Proofs.Pieces
import IngressControl.Text.Basic
import Mathlib.Data.List.Basic
import Mathlib.Tactic.IntervalCases

/-! The names that the service gives to new load balancers: each ends in the number of the creation
in hexadecimal digits, so two creations never give the same name. -/

namespace IngressControl

namespace Text

/-- The number that hexadecimal digits write behind a number read before. -/
def hexNumber (start : Nat) (cs : List Char) : Nat :=
  cs.foldl (fun value c => 16 * value + (hexValue? c).getD 0) start

theorem hexValue?_digitChar {d : Nat} (hd : d < 16) : hexValue? d.digitChar = some d := by
  interval_cases d <;> decide

theorem hexValue?_of_mem_toDigits (n : Nat) : ∀ c ∈ Nat.toDigits 16 n, (hexValue? c).isSome := by
  induction n using Nat.strongRecOn with
  | ind n ih =>
    rw [Nat.toDigits_eq_if (by decide)]
    intro c hc
    split at hc
    · rw [List.mem_singleton.mp hc, hexValue?_digitChar ‹_›]
      rfl
    · rcases List.mem_append.mp hc with hc | hc
      · exact ih (n / 16) (by omega) c hc
      · rw [List.mem_singleton.mp hc, hexValue?_digitChar (Nat.mod_lt n (by decide))]
        rfl

/-- A number is read back from its hexadecimal digits. -/
theorem hexNumber_toDigits (n : Nat) : hexNumber 0 (Nat.toDigits 16 n) = n := by
  induction n using Nat.strongRecOn with
  | ind n ih =>
    rw [Nat.toDigits_eq_if (by decide)]
    split
    · simp [hexNumber, hexValue?_digitChar ‹_›]
    · have hq : hexNumber 0 (Nat.toDigits 16 (n / 16)) = n / 16 := ih (n / 16) (by omega)
      simp only [hexNumber] at hq
      simp only [hexNumber, List.foldl_append, hq, List.foldl_cons, List.foldl_nil,
        hexValue?_digitChar (Nat.mod_lt n (by decide : 0 < 16)), Option.getD_some]
      omega

theorem hexNumber_zeros (k : Nat) (cs : List Char) :
    hexNumber 0 (List.replicate k '0' ++ cs) = hexNumber 0 cs := by
  induction k with
  | zero => rfl
  | succ k ih =>
    rw [List.replicate_succ, List.cons_append]
    exact ih

/-- Hexadecimal digits read back as their number, whatever their width. -/
theorem hexNumber_hexDigits (width n : Nat) : hexNumber 0 (hexDigits width n) = n := by
  rw [hexDigits, hexNumber_zeros, hexNumber_toDigits]

theorem slash_not_mem_hexDigits (width n : Nat) : '/' ∉ hexDigits width n := by
  intro h
  rcases List.mem_append.mp h with h | h
  · exact absurd (List.eq_of_mem_replicate h) (by decide)
  · exact absurd (hexValue?_of_mem_toDigits n '/' h) (by decide)

end Text

theorem Cloud.exists_toList_arn (region : Document) (name : String) (n : Nat) :
    ∃ stem, (Cloud.arn region name n).toList = stem ++ '/' :: Text.hexDigits 16 n := by
  have hcut (front : String) (back : List Char) :
      ∃ stem, (front ++ "/" ++ String.ofList back).toList = stem ++ '/' :: back :=
    ⟨front.toList, by simp⟩
  unfold Cloud.arn
  exact hcut _ _

/-- Two creations do not give the same name. -/
theorem Cloud.eq_of_arn_eq {region : Document} {name name' : String} {n m : Nat}
    (h : Cloud.arn region name n = Cloud.arn region name' m) : n = m := by
  obtain ⟨stem, hs⟩ := Cloud.exists_toList_arn region name n
  obtain ⟨stem', hs'⟩ := Cloud.exists_toList_arn region name' m
  have hl : stem ++ '/' :: Text.hexDigits 16 n = stem' ++ '/' :: Text.hexDigits 16 m := by
    rw [← hs, h, hs']
  have hd := Text.eq_of_append_sep_last (Text.slash_not_mem_hexDigits 16 n)
    (Text.slash_not_mem_hexDigits 16 m) hl
  have hv := congrArg (Text.hexNumber 0) hd
  rwa [Text.hexNumber_hexDigits, Text.hexNumber_hexDigits] at hv

end IngressControl
