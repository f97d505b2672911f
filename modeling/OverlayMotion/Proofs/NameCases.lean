import OverlayMotion.Animation
import OverlayMotion.Proofs.Lowering
import OverlayMotion.Proofs.Outcome

/-! Names in capitals and in small letters. A name is looked up in lower case, so case
matters in one place only: where a small letter and a capital behind the first character
occur together, the text counts as words run together and gets a hyphen before each such
capital, also where it has one. A text and its lower case are read alike exactly if this
does not happen, or if neither of them is a name anyway. -/
namespace OverlayMotion

namespace Text

def Resplit (cs : List Char) : Prop :=
  (∃ c ∈ trim cs, c.isLower = true) ∧ ∃ c ∈ (trim cs).tail, c.isUpper = true

section
variable {cs : List Char} {c : Char}

theorem hyphenatedKeeps (inside : c ∈ cs) : c ∈ hyphenated cs := by
  induction cs with
  | nil => contradiction
  | cons d rest ih =>
    unfold hyphenated
    rcases List.mem_cons.mp inside with rfl | later
    · split_ifs <;> simp
    · split_ifs <;> simp [ih later]

theorem splitWordsKeeps (inside : c ∈ cs) : c ∈ splitWords cs := by
  cases cs with
  | nil => contradiction
  | cons d rest =>
    rcases List.mem_cons.mp inside with rfl | later
    · simp [splitWords]
    · simp [splitWords, hyphenatedKeeps later]

theorem hyphenatedLength (cs : List Char) :
    (hyphenated cs).length = cs.length + cs.countP Char.isUpper := by
  induction cs with
  | nil => rfl
  | cons c rest ih =>
    rw [hyphenated, List.countP_cons]
    split_ifs <;> simp [ih] <;> omega

theorem hyphenatedSmall (small : ∀ c ∈ cs, c.isUpper = false) : hyphenated cs = cs := by
  induction cs with
  | nil => rfl
  | cons c rest ih =>
    rw [hyphenated, if_neg (by simp [small c]), ih fun d inside => small d (by simp [inside])]

end

def worded (key : List Char) : List Char := if hasBothCases key then splitWords key else key

def respelled (c : Char) : Char := if c = '_' then '-' else c.toLower

theorem separatedWords (cs : List Char) :
    separatedChars cs = (worded (trim cs)).map respelled := rfl

section
variable {cs ds : List Char}

theorem wordedKeeps {c : Char} (inside : c ∈ cs) : c ∈ worded cs := by
  unfold worded
  split_ifs
  · exact splitWordsKeeps inside
  · exact inside

theorem resplitLonger (resplit : Resplit cs) : (trim cs).length < (worded (trim cs)).length := by
  obtain ⟨⟨small, insideSmall, lower⟩, capital, insideTail, upper⟩ := resplit
  have both : hasBothCases (trim cs) = true := by
    simp only [hasBothCases, Bool.and_eq_true, List.any_eq_true]
    exact ⟨⟨capital, List.mem_of_mem_tail insideTail, upper⟩, small, insideSmall, lower⟩
  rw [worded, if_pos both]
  cases key : trim cs with
  | nil => simp [key] at insideTail
  | cons c rest =>
    rw [key] at insideTail
    have split : 0 < rest.countP Char.isUpper := List.countP_pos_iff.mpr ⟨capital, insideTail, upper⟩
    simp only [splitWords, List.length_cons, hyphenatedLength]
    omega

theorem wordedWhole (whole : ¬Resplit cs) : worded (trim cs) = trim cs := by
  unfold worded
  split_ifs with both
  · simp only [hasBothCases, Bool.and_eq_true, List.any_eq_true] at both
    have small : ∀ c ∈ (trim cs).tail, c.isUpper = false := fun c inside =>
      Bool.eq_false_iff.mpr fun upper => whole ⟨both.2, c, inside, upper⟩
    cases key : trim cs with
    | nil => rfl
    | cons c rest =>
      rw [key, List.tail_cons] at small
      rw [splitWords, hyphenatedSmall small]
  · rfl

theorem outsideRespelled {c : Char} (outside : Outside c) : respelled c = c := by
  rcases outside with rfl | foreign
  · rfl
  · have mark : c ≠ '_' := by rintro rfl; revert foreign; decide
    have beyond : ¬(c.val ≥ 'A'.val ∧ c.val ≤ 'Z'.val) := by
      rintro ⟨-, last⟩
      have : c.toNat ≤ 90 := last
      omega
    rw [respelled, if_neg mark]
    exact dif_neg beyond

theorem respelledLower {c : Char} (ascii : c.toNat < 128) : respelled c.toLower = respelled c :=
  asciiAll (P := fun c => respelled c.toLower = respelled c) (by decide) c ascii

theorem lowerSmall {c : Char} (ascii : c.toNat < 128) : c.toLower.isUpper = false :=
  asciiAll (P := fun c => c.toLower.isUpper = false) (by decide) c ascii

theorem outsideKept {d : Char} (inside : d ∈ trim cs) (outside : Outside d) :
    d ∈ separatedChars cs := by
  rw [separatedWords, ← outsideRespelled outside]
  exact List.mem_map_of_mem (wordedKeeps inside)

theorem loweredSeparated (lowers : Lowers cs ds) (ascii : ∀ c ∈ trim cs, c.toNat < 128) :
    separatedChars ds = (trim cs).map respelled := by
  have lowered := lowers.trimmed.ascii ascii
  have whole : ¬Resplit ds := by
    rintro ⟨-, c, inside, upper⟩
    have present := List.mem_of_mem_tail inside
    rw [lowered, List.mem_map] at present
    obtain ⟨d, given, rfl⟩ := present
    simp [lowerSmall (ascii d given)] at upper
  rw [separatedWords, wordedWhole whole, lowered, List.map_map]
  exact List.map_congr_left fun c inside => respelledLower (ascii c inside)

theorem separatedAlike (lowers : Lowers cs ds) (ascii : ∀ c ∈ trim cs, c.toNat < 128) :
    separatedChars cs = separatedChars ds ↔ ¬Resplit cs := by
  rw [loweredSeparated lowers ascii, separatedWords]
  refine ⟨fun same resplit => ?_, fun whole => by rw [wordedWhole whole]⟩
  have lengths := congrArg List.length same
  simp only [List.length_map] at lengths
  exact (resplitLonger resplit).ne' lengths

end

section
variable {α : Type} {all : List α} {name : α → String}

theorem foundSpelled {given : String} {e : α}
    (found : all.find? (fun e => name e == separated given) = some e) :
    name e = separated given := by
  simpa using List.find?_some found

theorem strangeUnfound (clear : ∀ e ∈ all, (name e).toList.all (¬Outside ·)) {given : String}
    {c : Char} (inside : c ∈ trim given.toList) (outside : Outside c) :
    all.find? (fun e => name e == separated given) = none := by
  refine List.find?_eq_none.mpr fun e listed same => ?_
  have named : c ∈ (name e).toList := by
    rw [beq_iff_eq.mp same, separated, String.toList_ofList]
    exact outsideKept inside outside
  exact of_decide_eq_true (List.all_eq_true.mp (clear e listed) c named) outside

theorem lookedUpAlike (clear : ∀ e ∈ all, (name e).toList.all (¬Outside ·))
    (endsWord : List Char → List Char → Bool) (given : String) :
    all.find? (fun e => name e == separated given) =
        all.find? (fun e => name e == separated (lower endsWord given)) ↔
      (Resplit given.toList → all.find? (fun e => name e == separated given) = none ∧
        all.find? (fun e => name e == separated (lower endsWord given)) = none) := by
  have lowers : Lowers given.toList (lower endsWord given).toList := by
    rw [lower, String.toList_ofList]
    exact lowerFromLowers _ _ _
  by_cases ascii : ∀ c ∈ trim given.toList, c.toNat < 128
  · have alike : separated given = separated (lower endsWord given) ↔ ¬Resplit given.toList := by
      rw [separated, separated, String.ofList_inj, separatedAlike lowers ascii]
    by_cases resplit : Resplit given.toList
    · refine ⟨fun same _ => ?_, fun neither => ?_⟩
      · cases found : all.find? (fun e => name e == separated given) with
        | none => exact ⟨rfl, same ▸ found⟩
        | some e =>
          -- one name would be spelled in two ways
          have spelled := foundSpelled found
          have lowerSpelled := foundSpelled (same.symm.trans found)
          exact absurd resplit (alike.mp (spelled.symm.trans lowerSpelled))
      · obtain ⟨first, last⟩ := neither resplit
        rw [first, last]
    · simp [alike.mpr resplit, resplit]
  · push Not at ascii
    obtain ⟨c, inside, foreign⟩ := ascii
    obtain ⟨d, insideLower, outside⟩ := lowers.trimmed.foreign inside foreign
    have first := strangeUnfound clear inside (.inr foreign)
    have last := strangeUnfound clear insideLower outside
    simp [first, last]

end

end Text

variable {ν ε : Type}

theorem Easing.clear : ∀ e ∈ Easing.all, e.name.toList.all (¬Text.Outside ·) := by decide

theorem Effect.clear : ∀ e ∈ Effect.all, e.name.toList.all (¬Text.Outside ·) := by decide

theorem Easing.resolvedOutcome (fallback : Easing) (given : String) :
    (Easing.resolve fallback given : Logged ν ε Easing).outcome =
      .ok ((Easing.ofName? given).getD fallback) := by
  unfold Easing.resolve
  cases Easing.ofName? given <;> rfl

theorem Easing.sameForAll {given lower : String} :
    (∀ fallback, (Easing.resolve fallback given : Logged ν ε Easing).outcome =
        (Easing.resolve fallback lower : Logged ν ε Easing).outcome) ↔
      Easing.ofName? given = Easing.ofName? lower := by
  simp only [resolvedOutcome, Except.ok.injEq]
  refine ⟨fun same => ?_, fun same _ => by rw [same]⟩
  -- of two fallbacks at least one is not what the other text says
  have first := same .linear
  have second := same .easeIn
  cases found : Easing.ofName? given <;> cases lowerFound : Easing.ofName? lower <;>
    simp only [found, lowerFound, Option.getD_none, Option.getD_some] at first second
  · rfl
  · cases first.trans second.symm
  · cases first.symm.trans second
  · rw [first]

theorem Effect.readAlike {given lower : String} :
    Agree (· = ·) (Effect.read given : Except (Rejection ν) Effect)
        (Effect.read lower : Except (Rejection ν) Effect) ↔
      Effect.ofName? given = Effect.ofName? lower := by
  unfold Effect.read
  cases Effect.ofName? given <;> cases Effect.ofName? lower <;> simp [Agree]

/-- A text and its lower case are the same easing under every fallback, and the same kind of
motion or none at all, exactly if no hyphens are put into the text, or neither is a name. -/
theorem namesReadAlike (endsWord : List Char → List Char → Bool) (given : String) :
    let lower := Text.lower endsWord given
    ((∀ fallback, (Easing.resolve fallback given : Logged ν ε Easing).outcome =
        (Easing.resolve fallback lower : Logged ν ε Easing).outcome) ↔
      (Text.Resplit given.toList → Easing.ofName? given = none ∧ Easing.ofName? lower = none)) ∧
    (Agree (· = ·) (Effect.read given : Except (Rejection ν) Effect)
        (Effect.read lower : Except (Rejection ν) Effect) ↔
      (Text.Resplit given.toList →
        Effect.ofName? given = none ∧ Effect.ofName? lower = none)) :=
  ⟨Easing.sameForAll.trans (Text.lookedUpAlike Easing.clear endsWord given),
    Effect.readAlike.trans (Text.lookedUpAlike Effect.clear endsWord given)⟩

example : Easing.ofName? "Ease-In" = none ∧ Easing.ofName? "ease-in" = some .easeIn := by decide

end OverlayMotion
