import OverlayMotion.Proofs.Trimming
import OverlayMotion.Text.Unicode

/-! What lower case does to a text. White space stays, everything else becomes something
that is no white space, so cutting the ends off and lowering may change places. ASCII
letters become ASCII letters; nothing else becomes an ASCII text, save for the Kelvin sign,
which becomes a k. -/
namespace OverlayMotion.Text

def Outside (c : Char) : Prop := c = 'k' ∨ 128 ≤ c.toNat

instance : DecidablePred Outside := fun c => inferInstanceAs (Decidable (c = 'k' ∨ 128 ≤ c.toNat))

theorem asciiAll {P : Char → Prop} (each : ∀ n < 128, P (Char.ofNat n)) (c : Char)
    (ascii : c.toNat < 128) : P c := by
  have found := each c.toNat ascii
  rwa [Char.ofNat_toNat] at found

theorem runsLand : ∀ run ∈ capitalRuns, ∀ i ≤ (run.last - run.first) / run.step,
    isBlank (Char.ofNat (run.first + i * run.step)) = false ∧
    isBlank (Char.ofNat ((run.first + i * run.step : Nat) + run.shift).toNat) = false ∧
    Outside (Char.ofNat ((run.first + i * run.step : Nat) + run.shift).toNat) := by
  decide +kernel

theorem CapitalRun.held {run : CapitalRun} {n : Nat} (holds : run.holds n = true) :
    ∃ i ≤ (run.last - run.first) / run.step, n = run.first + i * run.step := by
  simp only [CapitalRun.holds, Bool.and_eq_true, decide_eq_true_eq, beq_iff_eq] at holds
  obtain ⟨⟨first, last⟩, whole⟩ := holds
  refine ⟨(n - run.first) / run.step, Nat.div_le_div_right (by omega), ?_⟩
  rw [Nat.div_mul_cancel (Nat.dvd_of_mod_eq_zero whole)]
  omega

theorem smallForeign {c : Char} (foreign : 128 ≤ c.toNat) : smallLetter c = c ∨
    isBlank c = false ∧ isBlank (smallLetter c) = false ∧ Outside (smallLetter c) := by
  rw [smallLetter, if_neg foreign.not_gt]
  split
  · rename_i run found
    have holds : run.holds c.toNat = true := by simpa using List.find?_some found
    obtain ⟨i, few, place⟩ := CapitalRun.held holds
    obtain ⟨capital, small, outside⟩ := runsLand run (List.mem_of_find?_eq_some found) i few
    rw [← place] at capital small outside
    rw [Char.ofNat_toNat] at capital
    exact .inr ⟨capital, small, outside⟩
  · exact .inl rfl

section
variable (wordEnds : Bool) {c : Char}

theorem lowerFormPlain (dotted : c ≠ '\u0130') (sigma : c ≠ 'Σ') :
    lowerForm wordEnds c = [smallLetter c] := by
  rw [lowerForm, if_neg dotted, if_neg (sigma ·.1)]

theorem lowerFormAscii (ascii : c.toNat < 128) : lowerForm wordEnds c = [c.toLower] := by
  have dotted : c ≠ '\u0130' := by rintro rfl; revert ascii; decide
  have sigma : c ≠ 'Σ' := by rintro rfl; revert ascii; decide
  rw [lowerFormPlain wordEnds dotted sigma, smallLetter, if_pos ascii]

theorem lowerFormForeign (foreign : 128 ≤ c.toNat) : ∃ d ∈ lowerForm wordEnds c, Outside d := by
  unfold lowerForm
  split_ifs
  · exact ⟨'\u0307', by simp, by decide⟩
  · exact ⟨'ς', by simp, by decide⟩
  · refine ⟨smallLetter c, by simp, ?_⟩
    rcases smallForeign foreign with same | ⟨-, -, outside⟩
    · exact .inr (same.symm ▸ foreign)
    · exact outside

theorem lowerFormBlank (blank : isBlank c = true) : lowerForm wordEnds c = [c] := by
  rcases lt_or_ge c.toNat 128 with ascii | foreign
  · have same := asciiAll (P := fun c => isBlank c = true → c.toLower = c) (by decide) c ascii
    rw [lowerFormAscii wordEnds ascii, same blank]
  · have dotted : c ≠ '\u0130' := by rintro rfl; revert blank; decide
    have sigma : c ≠ 'Σ' := by rintro rfl; revert blank; decide
    rcases smallForeign foreign with same | ⟨solid, -⟩
    · rw [lowerFormPlain wordEnds dotted sigma, same]
    · simp [solid] at blank

theorem lowerFormSolid (solid : isBlank c = false) :
    lowerForm wordEnds c ≠ [] ∧ ∀ d ∈ lowerForm wordEnds c, isBlank d = false := by
  rcases lt_or_ge c.toNat 128 with ascii | foreign
  · have kept := asciiAll (P := fun c => isBlank c = false → isBlank c.toLower = false)
      (by decide) c ascii solid
    simp [lowerFormAscii wordEnds ascii, kept]
  · unfold lowerForm
    split_ifs
    · exact ⟨by simp, by simp [isBlank]⟩
    · exact ⟨by simp, by simp [isBlank]⟩
    · rcases smallForeign foreign with same | ⟨-, small, -⟩
      · simp [same, solid]
      · simp [small]

end

inductive Lowers : List Char → List Char → Prop
  | nil : Lowers [] []
  | cons {cs ds : List Char} (wordEnds : Bool) (c : Char) (tail : Lowers cs ds) :
      Lowers (c :: cs) (lowerForm wordEnds c ++ ds)

theorem lowerFromLowers (endsWord : List Char → List Char → Bool) (before cs : List Char) :
    Lowers cs (lowerFrom endsWord before cs) := by
  induction cs generalizing before with
  | nil => exact .nil
  | cons c after ih => exact .cons _ c (ih _)

namespace Lowers
variable {cs ds : List Char}

theorem apart {front back : List Char} (lowers : Lowers (front ++ back) ds) :
    ∃ es fs, ds = es ++ fs ∧ Lowers front es ∧ Lowers back fs := by
  induction front generalizing ds with
  | nil => exact ⟨[], ds, rfl, .nil, lowers⟩
  | cons c front ih =>
    cases lowers with
    | cons wordEnds _ tail =>
      obtain ⟨es, fs, rfl, first, last⟩ := ih tail
      exact ⟨_, fs, (List.append_assoc _ _ _).symm, .cons wordEnds c first, last⟩

theorem blank (lowers : Lowers cs ds) (blank : Blank cs) : ds = cs := by
  induction lowers with
  | nil => rfl
  | cons wordEnds c tail ih =>
    rw [lowerFormBlank wordEnds (blank c (by simp)), ih fun d inside => blank d (by simp [inside])]
    rfl

theorem startsSolid (lowers : Lowers cs ds) (starts : StartsSolid cs) : StartsSolid ds := by
  cases lowers with
  | nil => exact starts
  | cons wordEnds c tail =>
    obtain ⟨some, solid⟩ := lowerFormSolid wordEnds (starts c rfl)
    exact (StartsSolid.dense solid).before some _

theorem endsSolid (lowers : Lowers cs ds) (ends : EndsSolid cs) : EndsSolid ds := by
  rcases cs.eq_nil_or_concat with rfl | ⟨front, c, rfl⟩
  · cases lowers
    exact ends
  · rw [List.concat_eq_append] at lowers ends
    obtain ⟨es, fs, rfl, -, last⟩ := lowers.apart
    cases last with
    | cons wordEnds _ none =>
      cases none
      obtain ⟨some, solid⟩ := lowerFormSolid wordEnds (ends c (by simp))
      rw [List.append_nil]
      exact (EndsSolid.dense solid).after some _

theorem trimmed (lowers : Lowers cs ds) : Lowers (trim cs) (trim ds) := by
  obtain ⟨front, back, parts, blankFront, blankBack, starts, ends⟩ := trimParts cs
  rw [parts, List.append_assoc] at lowers
  obtain ⟨_, _, rfl, first, rest⟩ := lowers.apart
  obtain ⟨body, _, rfl, middle, last⟩ := rest.apart
  rw [first.blank blankFront, last.blank blankBack, ← List.append_assoc,
    trimBetween blankFront blankBack (middle.startsSolid starts) (middle.endsSolid ends)]
  exact middle

theorem ascii (lowers : Lowers cs ds) (ascii : ∀ c ∈ cs, c.toNat < 128) :
    ds = cs.map Char.toLower := by
  induction lowers with
  | nil => rfl
  | cons wordEnds c tail ih =>
    rw [lowerFormAscii wordEnds (ascii c (by simp)), ih fun d inside => ascii d (by simp [inside])]
    rfl

theorem foreign (lowers : Lowers cs ds) {c : Char} (inside : c ∈ cs) (foreign : 128 ≤ c.toNat) :
    ∃ d ∈ ds, Outside d := by
  obtain ⟨front, back, rfl⟩ := List.append_of_mem inside
  obtain ⟨es, fs, rfl, -, rest⟩ := lowers.apart
  cases rest with
  | cons wordEnds _ tail =>
    obtain ⟨d, found, outside⟩ := lowerFormForeign wordEnds foreign
    exact ⟨d, by simp [found], outside⟩

end Lowers

end OverlayMotion.Text
