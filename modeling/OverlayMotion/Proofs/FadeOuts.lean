import Mathlib.Tactic.Linarith
import OverlayMotion.Proofs.Exact
import OverlayMotion.Proofs.Parts

/-! The fade-outs of a plan, over exact rationals: the picture's over the base video, the
sound's over the base video and its closing still. Each is as long as it is asked to be and
starts early enough to end with its stream, but not before the stream starts. So one that is
longer than its stream is not over when the stream ends. -/
namespace OverlayMotion.Graph

def Filter.IsFadeOut (f : Filter) (name : String) : Prop :=
  f.name = name ∧ f.option? "t" = some (.plain "out")

section
variable {ν : Type} [Number ν] {f : Filter} {name : String}

theorem fadingInStays (kind length : String) : ¬ (fadingIn kind length).IsFadeOut name := by
  rintro ⟨-, out⟩
  simp [fadingIn, Filter.option?, named] at out

theorem Draws.stays {o : Overlay ν} (draws : Draws o f) (kind : name ∈ ["fade", "afade"]) :
    ¬ f.IsFadeOut name := by
  rintro ⟨rfl, -⟩
  cases draws with
  | prepared compiled prepares => cases prepares <;> simp at kind
  | laid => simp [layFilter] at kind
  | drawn => simp [drawFilter] at kind

theorem Closes.stays (closes : Closes f) (kind : name ∈ ["fade", "afade"]) :
    ¬ f.IsFadeOut name := by
  intro out
  cases closes with
  | faded length => exact fadingInStays _ _ out
  | matched value adapts =>
    obtain ⟨rfl, -⟩ := out
    simp only [List.mem_cons, List.not_mem_nil, or_false] at adapts
    rcases adapts with rfl | rfl | rfl <;> simp at kind
  | _ =>
    obtain ⟨rfl, -⟩ := out
    simp at kind

theorem Parts.fadeOuts {c : Composition ν} {layered fades closing sounds : List Filter}
    (parts : Parts c layered fades closing sounds) (kind : name ∈ ["fade", "afade"]) :
    f ∈ layered ++ fades ++ c.sizing :: closing ++ sounds ∧ f.IsFadeOut name ↔
      f ∈ fades ∧ f.IsFadeOut name ∨ f ∈ sounds ∧ f.IsFadeOut name := by
  rw [← or_and_right]
  refine and_congr_left fun out => ?_
  have unlayered : f ∉ layered := fun inside => by
    obtain ⟨o, -, draws⟩ := parts.layered f inside
    exact draws.stays kind out
  have unsized : f ≠ c.sizing := by
    rintro rfl
    obtain ⟨rfl, -⟩ := out
    simp [Composition.sizing] at kind
  have unclosing : f ∉ closing := fun inside => (parts.closing f inside).stays kind out
  simp [unlayered, unsized, unclosing]

end

section
variable [Reading]

def FadeOut (name : String) (length total : Rat) (f : Filter) : Prop :=
  ∃ start st d, 0 ≤ start ∧ start + length = max total length ∧
    (start + length = total ↔ length ≤ total) ∧
    Expr.numberText start = .ok st ∧ Expr.numberText length = .ok d ∧ f = fadingOut name st d

theorem fadeOutMade {name : String} {length total begins : Rat} {start d : String} {f : Filter}
    (computed : fadeOutStart total length = .ok begins)
    (startText : Expr.numberText begins = .ok start) (lengthText : Expr.numberText length = .ok d) :
    FadeOut name length total f ↔ f = fadingOut name start d := by
  have ends : begins + length = max total length := by
    have early : begins = max (total - length) 0 := by
      simpa [fadeOutStart, Number.zero] using computed.symm
    rw [early, ← max_add_add_right, sub_add_cancel, zero_add]
  constructor
  · rintro ⟨begins', start', d', -, ends', -, startText', lengthText', rfl⟩
    obtain rfl : begins = begins' := by linarith
    cases startText.symm.trans startText'
    cases lengthText.symm.trans lengthText'
    rfl
  · rintro rfl
    refine ⟨begins, start, d, ?_, ends, by simp [ends], startText, lengthText, rfl⟩
    have longer := le_max_right total length
    linarith

theorem fadesOutMade {name name' : String} {fadeIn fadeOut : Rat} {total : Option Rat}
    {skipped : Notice Rat} {filters : List Filter}
    (done : (fadeFilters name fadeIn fadeOut total skipped).outcome = .ok filters) (f : Filter) :
    f ∈ filters ∧ f.IsFadeOut name' ↔
      name = name' ∧ 0 < fadeOut ∧ ∃ length ∈ total, FadeOut name fadeOut length f := by
  obtain ⟨entering, leaving, rfl, enters, leaves⟩ := fadesMade done
  have only : f ∈ entering ++ leaving ∧ f.IsFadeOut name' ↔ f ∈ leaving ∧ f.IsFadeOut name' := by
    refine and_congr_left fun out => List.mem_append.trans (or_iff_right fun inside => ?_)
    obtain ⟨d, rfl⟩ := enters f inside
    exact fadingInStays _ _ out
  rw [only]
  cases leaves with
  | never none =>
    have never : ¬ 0 < fadeOut := by simpa using none
    simp [never]
  | unknown => simp
  | @faded total begins start d lasting computed startText lengthText =>
    have positive : 0 < fadeOut := by simpa using lasting
    simp only [Option.mem_def, Option.some.injEq, exists_eq_left', positive, true_and,
      fadeOutMade computed startText lengthText, List.mem_singleton]
    constructor
    · rintro ⟨rfl, rfl, -⟩
      exact ⟨rfl, rfl⟩
    · rintro ⟨rfl, rfl⟩
      exact ⟨rfl, rfl, rfl⟩

theorem pictureFadesOut {c : Composition Rat} {fades : List Filter} {name : String}
    (done : (pictureFades c).outcome = .ok fades) (f : Filter) :
    f ∈ fades ∧ f.IsFadeOut name ↔ "fade" = name ∧ ∃ fade ∈ c.fade, 0 < fade.fadeOut ∧
      ∃ duration ∈ c.duration, FadeOut "fade" fade.fadeOut duration f := by
  unfold pictureFades at done
  split at done
  · rename_i fade given
    simpa [given] using fadesOutMade done f
  · rename_i absent
    cases done
    simp [absent]

def Composition.extra (c : Composition Rat) : Rat := (c.still.map Still.duration).getD 0

theorem totalExact {c : Composition Rat} {total : Option Rat} (summed : c.total = .ok total) :
    total = c.duration.map (· + c.extra) := by
  unfold Composition.total at summed
  unfold Composition.extra
  split at summed
  · rename_i absent
    cases summed
    simp [absent]
  · rename_i still given
    rw [optionOk] at summed
    rw [given]
    generalize c.duration = duration at summed ⊢
    cases summed with
    | none => rfl
    | some added =>
      cases added
      rfl

theorem soundFadesOut {audio : Option (Audio Rat)} {total : Option Rat} {sounds : List Filter}
    {name : String} (done : (soundFades audio total).outcome = .ok sounds) (f : Filter) :
    f ∈ sounds ∧ f.IsFadeOut name ↔ "afade" = name ∧ ∃ a ∈ audio, 0 < a.fadeOut ∧
      ∃ length ∈ total, FadeOut "afade" a.fadeOut length f := by
  unfold soundFades at done
  split at done
  · simpa using fadesOutMade done f
  · cases done
    simp

/-- The fade-outs of a plan. That of the picture ends with the base video and that of the sound
with the whole composition, exactly if they are no longer than these; one that is longer starts
with its stream, and the stream ends first. -/
theorem fadeOutsPlanned {c : Composition Rat} {p : Plan} (planned : (plan c).outcome = .ok p)
    (f : Filter) :
    (f ∈ p.allFilters ∧ f.IsFadeOut "fade" ↔ ∃ fade ∈ c.fade, 0 < fade.fadeOut ∧
      ∃ duration ∈ c.duration, FadeOut "fade" fade.fadeOut duration f) ∧
    (f ∈ p.allFilters ∧ f.IsFadeOut "afade" ↔ ∃ audio ∈ c.audio, 0 < audio.fadeOut ∧
      ∃ duration ∈ c.duration, FadeOut "afade" audio.fadeOut (duration + c.extra) f) := by
  obtain ⟨layered, fades, closing, sounds, parts, whole⟩ := planParts planned
  obtain ⟨total, summed, heard⟩ := parts.sounds
  rw [totalExact summed] at heard
  constructor
  · rw [whole, parts.fadeOuts (by simp), pictureFadesOut parts.fades, soundFadesOut heard]
    simp
  · rw [whole, parts.fadeOuts (by simp), pictureFadesOut parts.fades, soundFadesOut heard]
    simp

end

def hurriedFades : Composition Rat where
  base := ⟨0, ["base.mp4"]⟩
  overlays := []
  size := (1080, 1920)
  audio := some ⟨⟨0, ["music.mp3"]⟩, 0, 3⟩
  duration := some 2
  fade := some ⟨0, 5⟩
  still := some ⟨⟨0, ["end.png"]⟩, 5 / 2, 0, "black"⟩
  fps := some 30

theorem hurriedFadesPlanned :
    letI := wholePowers
    ∃ p, (plan hurriedFades).outcome = .ok p ∧ fadingOut "fade" "0" "5" ∈ p.allFilters ∧
      fadingOut "afade" "1.5" "3" ∈ p.allFilters := by
  let _ := wholePowers
  have succeeds : (plan hurriedFades).outcome.isOk = true := by decide +kernel
  obtain ⟨p, planned⟩ := succeeded succeeds
  have written (q : Rat) : Expr.numberText q = .ok (String.ofList (Decimal.nineDecimals q)) := rfl
  have picture : FadeOut "fade" 5 2 (fadingOut "fade" "0" "5") := by
    refine ⟨0, "0", "5", by norm_num, by norm_num, by norm_num, ?_, ?_, rfl⟩
    · exact (written 0).trans (congrArg Except.ok (by decide +kernel))
    · exact (written 5).trans (congrArg Except.ok (by decide +kernel))
  have sound : FadeOut "afade" 3 (2 + hurriedFades.extra) (fadingOut "afade" "1.5" "3") := by
    have length : 2 + hurriedFades.extra = 9 / 2 := by
      norm_num [Composition.extra, hurriedFades]
    rw [length]
    refine ⟨3 / 2, "1.5", "3", by norm_num, by norm_num, by norm_num, ?_, ?_, rfl⟩
    · exact (written (3 / 2)).trans (congrArg Except.ok (by decide +kernel))
    · exact (written 3).trans (congrArg Except.ok (by decide +kernel))
  obtain ⟨faded, -⟩ := (fadeOutsPlanned planned _).1.mpr
    ⟨⟨0, 5⟩, rfl, by norm_num, 2, rfl, picture⟩
  obtain ⟨quieted, -⟩ := (fadeOutsPlanned planned _).2.mpr
    ⟨⟨⟨0, ["music.mp3"]⟩, 0, 3⟩, rfl, by norm_num, 2, rfl, sound⟩
  exact ⟨p, planned, faded, quieted⟩

end OverlayMotion.Graph
