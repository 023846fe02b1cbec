import AnimaCore.Lib.Occurrences
import AnimaCore.StandingIntents

/-!
# AnimaCore.StandingIntents.Phrases — which phrases are found

A keyword intent fires when the turn's text holds its phrase as a whole: neither preceded nor followed by an
alphanumeric character.  `phrase_matches` looks for it among the occurrences `str::match_indices` yields, and those are
disjoint: an occurrence that is not whole hides every occurrence that begins inside it.
-/

namespace AnimaCore.StandingIntents

open Lib.Occurrences

/-- The phrase occurs at `i`, neither preceded nor followed by an alphanumeric character. -/
def WholeAt (unicode : UnicodeTables) (phrase text : List Char) (i : ℕ) : Prop :=
  At phrase text i ∧ (text.take i).getLast?.all (fun c => !unicode.isAlphanumeric c) = true ∧
    (text.drop (i + phrase.length)).head?.all (fun c => !unicode.isAlphanumeric c) = true

/-- An occurrence at `i` begins inside one the search takes. -/
def Hidden (phrase text : List Char) (i : ℕ) : Prop := ∃ j, Taken phrase text 0 j ∧ j < i ∧ i < j + phrase.length

/-- The search of `phrase_matches`, in normalised text. -/
def found (unicode : UnicodeTables) (phrase text : List Char) : Bool :=
  (matchIndices phrase [] 0 text).any fun (before, after) =>
    before.getLast?.all (fun c => !unicode.isAlphanumeric c) && after.head?.all fun c => !unicode.isAlphanumeric c

theorem phraseMatches_eq (unicode : UnicodeTables) (text phrase : String) :
    phraseMatches unicode text phrase = found unicode (normalize unicode phrase).toList (normalize unicode text).toList :=
  rfl

variable {unicode : UnicodeTables} {phrase text before rest : List Char} {skip i : ℕ}

/-! ## The search -/

theorem at_length_iff (phrase before rest : List Char) :
    At phrase (before ++ rest) before.length ↔ phrase.isPrefixOf rest = true := by
  simp [At]

theorem mem_matchIndices {m : List Char × List Char} :
    m ∈ matchIndices phrase before skip rest ↔
      ∃ i, Taken phrase (before ++ rest) (before.length + skip) i ∧
        m = ((before ++ rest).take i, (before ++ rest).drop (i + phrase.length)) := by
  induction rest generalizing before skip with
  | nil =>
    unfold matchIndices
    by_cases hend : skip = 0 ∧ phrase = []
    · obtain ⟨rfl, rfl⟩ := hend
      have hat : At [] (before ++ []) before.length := ⟨by simp, List.nil_prefix⟩
      rw [if_pos ⟨rfl, rfl⟩, List.mem_singleton]
      constructor
      · rintro rfl
        exact ⟨before.length, (taken_of_at hat).mpr (.inl rfl), by simp⟩
      · rintro ⟨i, hi, rfl⟩
        rcases (taken_of_at hat).mp hi with rfl | hi
        · simp
        · exact absurd hi (not_taken_of_length_lt (by simp))
    · rw [if_neg hend]
      refine ⟨fun h => absurd h List.not_mem_nil, ?_⟩
      rintro ⟨i, hi, -⟩
      obtain ⟨hs, hle, hpre⟩ := hi.at
      rw [List.append_nil] at hle hpre
      refine absurd ⟨by omega, ?_⟩ hend
      rw [List.drop_eq_nil_of_le (by omega)] at hpre
      exact List.prefix_nil.mp hpre
  | cons c rest ih =>
    have happ : before ++ c :: rest = (before ++ [c]) ++ rest := by simp
    have hlen : (before ++ [c]).length = before.length + 1 := by simp
    unfold matchIndices
    by_cases hhere : skip = 0 ∧ phrase.isPrefixOf (c :: rest) = true
    · obtain ⟨rfl, hpre⟩ := hhere
      have hat : At phrase (before ++ c :: rest) before.length := (at_length_iff _ _ _).mpr hpre
      rw [if_pos ⟨rfl, hpre⟩, List.mem_cons, ih, hlen, Nat.add_zero]
      have hnext : before.length + 1 + (phrase.length - 1) = before.length + max 1 phrase.length := by omega
      have hm : (before, (c :: rest).drop phrase.length) =
          ((before ++ c :: rest).take before.length, (before ++ c :: rest).drop (before.length + phrase.length)) := by
        simp [List.drop_append]
      rw [hnext, ← happ, hm]
      constructor
      · rintro (rfl | ⟨i, hi, rfl⟩)
        · exact ⟨before.length, (taken_of_at hat).mpr (.inl rfl), rfl⟩
        · exact ⟨i, (taken_of_at hat).mpr (.inr hi), rfl⟩
      · rintro ⟨i, hi, rfl⟩
        rcases (taken_of_at hat).mp hi with rfl | hi
        · exact .inl rfl
        · exact .inr ⟨i, hi, rfl⟩
    · rw [if_neg hhere, ih, hlen, ← happ]
      rcases Nat.eq_zero_or_pos skip with rfl | hskip
      · have hat : ¬ At phrase (before ++ c :: rest) before.length :=
          fun h => hhere ⟨rfl, (at_length_iff _ _ _).mp h⟩
        simp only [Nat.zero_sub, Nat.add_zero, taken_of_not_at hat]
      · rw [show before.length + 1 + (skip - 1) = before.length + skip by omega]

theorem found_eq_true : found unicode phrase text = true ↔
    ∃ i, Taken phrase text 0 i ∧ WholeAt unicode phrase text i := by
  simp only [found, List.any_eq_true, mem_matchIndices, List.nil_append, List.length_nil, Nat.add_zero, Bool.and_eq_true]
  constructor
  · rintro ⟨_, ⟨i, hi, rfl⟩, hbefore, hafter⟩
    exact ⟨i, hi, hi.at.2, hbefore, hafter⟩
  · rintro ⟨i, hi, -, hbefore, hafter⟩
    exact ⟨_, ⟨i, hi, rfl⟩, hbefore, hafter⟩

theorem taken_iff_not_hidden (hi : At phrase text i) : Taken phrase text 0 i ↔ ¬ Hidden phrase text i := by
  rw [taken_iff (Nat.zero_le i) hi]
  constructor
  · rintro hout ⟨j, hj, hji, hin⟩
    have := hout j hj hji
    omega
  · intro hhid j hj hji
    by_contra hin
    exact hhid ⟨j, hj, hji, by omega⟩

theorem found_iff_unhidden : found unicode phrase text = true ↔
    ∃ i, WholeAt unicode phrase text i ∧ ¬ Hidden phrase text i := by
  rw [found_eq_true]
  constructor
  · rintro ⟨i, hi, hwhole⟩
    exact ⟨i, hwhole, (taken_iff_not_hidden hwhole.1).mp hi⟩
  · rintro ⟨i, hwhole, hhid⟩
    exact ⟨i, (taken_iff_not_hidden hwhole.1).mpr hhid, hwhole⟩

/-! ## When a keyword is matched right -/

def asciiTables : UnicodeTables where
  toLowercase s := String.ofList (s.toList.map Char.toLower)
  isAlphanumeric := Char.isAlphanum

instance (unicode : UnicodeTables) (phrase text : List Char) (i : ℕ) : Decidable (WholeAt unicode phrase text i) :=
  inferInstanceAs (Decidable ((_ ∧ _) ∧ _ ∧ _))

end AnimaCore.StandingIntents
