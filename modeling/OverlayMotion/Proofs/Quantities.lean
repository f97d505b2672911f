import OverlayMotion.Job.File
import OverlayMotion.Proofs.Construction

/-! The numbers and the formulas that a job gives, and where they go: what is built from an
entry has the numbers of the entry, and reading a job reads none of its formulas. -/
namespace OverlayMotion

section
variable {ν : Type}

def Phase.numbers (p : Phase ν) : List ν :=
  [p.duration, p.zoomFrom, p.zoomTo] ++ p.overshoot.toList

def Animation.numbers (a : Animation ν) : List ν :=
  a.hold :: (a.entry.toList ++ a.exit.toList).flatMap Phase.numbers

def Coordinate.numbers : Coordinate ν → List ν
  | number v => [v]
  | formula _ => []

def Coordinate.formulas : Coordinate ν → List String
  | number _ => []
  | formula source => [source]

def Placement.numbers (p : Placement ν) : List ν :=
  [p.start, p.finish] ++ (p.x.toList ++ p.y.toList).flatMap Coordinate.numbers ++
    p.animation.toList.flatMap Animation.numbers

def Placement.formulas (p : Placement ν) : List String :=
  (p.x.toList ++ p.y.toList).flatMap Coordinate.formulas

def Idle.numbers (i : Idle ν) : List ν := [i.amplitude, i.speed]

section
variable {p : Placement ν}

theorem Placement.coordinateNumbers {c : Coordinate ν} (given : c ∈ p.x ∨ c ∈ p.y) {v : ν}
    (inside : v ∈ c.numbers) : v ∈ p.numbers := by
  refine List.mem_append_left _ (List.mem_append_right _ (List.mem_flatMap.mpr ⟨c, ?_, inside⟩))
  rw [List.mem_append, Option.mem_toList, Option.mem_toList]
  exact given

theorem Placement.coordinateFormulas {c : Coordinate ν} (given : c ∈ p.x ∨ c ∈ p.y)
    {source : String} (inside : source ∈ c.formulas) : source ∈ p.formulas := by
  refine List.mem_flatMap.mpr ⟨c, ?_, inside⟩
  rw [List.mem_append, Option.mem_toList, Option.mem_toList]
  exact given

theorem Placement.animationNumbers {a : Animation ν} (given : a ∈ p.animation) {v : ν}
    (inside : v ∈ a.numbers) : v ∈ p.numbers :=
  List.mem_append_right _ (List.mem_flatMap.mpr ⟨a, Option.mem_toList.mpr given, inside⟩)

end

theorem Animation.phaseNumbers {a : Animation ν} {p : Phase ν} (given : p ∈ a.entry ∨ p ∈ a.exit)
    {v : ν} (inside : v ∈ p.numbers) : v ∈ a.numbers := by
  refine List.mem_cons_of_mem _ (List.mem_flatMap.mpr ⟨p, ?_, inside⟩)
  rw [List.mem_append, Option.mem_toList, Option.mem_toList]
  exact given

end

def Overlay.numbers : Overlay Scalar → List Scalar
  | image i => i.placement.numbers ++ i.width.toList.map .int
  | caption c => c.placement.numbers ++ c.fontSize :: c.idle.toList.flatMap Idle.numbers

def Overlay.formulas (o : Overlay Scalar) : List String := o.placement.formulas

namespace Job

def PhaseEntry.numbers (e : PhaseEntry) : List Scalar :=
  [e.duration, e.zoomFrom, e.zoomTo] ++ e.overshoot.toList

def AnimationEntry.numbers (e : AnimationEntry) : List Scalar :=
  e.hold :: (e.entry.toList ++ e.exit.toList).flatMap PhaseEntry.numbers

def ImageEntry.numbers (e : ImageEntry) : List Scalar :=
  [e.start, e.finish] ++ (e.x.toList ++ e.y.toList).flatMap Coordinate.numbers ++
    e.animation.toList.flatMap AnimationEntry.numbers ++ e.width.toList.map .int

def ImageEntry.formulas (e : ImageEntry) : List String :=
  (e.x.toList ++ e.y.toList).flatMap Coordinate.formulas

def CaptionEntry.numbers (e : CaptionEntry) : List Scalar :=
  [e.start, e.finish] ++ (e.x.toList ++ e.y.toList).flatMap Coordinate.numbers ++
    e.animation.toList.flatMap AnimationEntry.numbers ++
    e.fontSize :: e.idle.toList.flatMap fun i => [i.amplitude, i.speed]

def CaptionEntry.formulas (e : CaptionEntry) : List String :=
  (e.x.toList ++ e.y.toList).flatMap Coordinate.formulas

theorem PhaseEntry.keepsNumbers {e : PhaseEntry} {p : Phase Scalar}
    (made : e.toPhase.outcome = .ok p) : p.numbers = e.numbers := by
  obtain ⟨effect, _, made⟩ := Logged.bindOk.mp made
  obtain ⟨_, _, made⟩ := Logged.bindOk.mp made
  obtain ⟨easing, _, made⟩ := Logged.bindOk.mp made
  obtain ⟨_, _, last⟩ := Logged.bindOk.mp made
  cases last
  rfl

theorem AnimationEntry.keepsNumbers {e : AnimationEntry} {a : Animation Scalar}
    (made : e.toAnimation.outcome = .ok a) : a.numbers = e.numbers := by
  obtain ⟨entry, first, made⟩ := Logged.bindOk.mp made
  obtain ⟨exit, second, made⟩ := Logged.bindOk.mp made
  obtain ⟨_, _, last⟩ := bindOk.mp made
  cases last
  rw [Logged.optionOutcome] at first second
  simp only [Animation.numbers, numbers, List.flatMap_append,
    optionAlong PhaseEntry.keepsNumbers first, optionAlong PhaseEntry.keepsNumbers second]

theorem IdleEntry.keepsNumbers {e : IdleEntry} {i : Idle Scalar} (made : e.toIdle = .ok i) :
    i.numbers = [e.amplitude, e.speed] := by
  obtain ⟨_, _, last⟩ := bindOk.mp made
  cases last
  rfl

theorem ImageEntry.described (e : ImageEntry) {path : Path} {i : Image Scalar}
    (made : (e.toImage path).outcome = .ok i) :
    ∃ animation, (e.animation.mapM fun a => a.toAnimation.outcome) = .ok animation ∧
      Image.make path ⟨e.start, e.finish, e.x, e.y, animation⟩ e.width
        (e.box.map fun box => [box.1, box.2]) e.fit = .ok i := by
  obtain ⟨animation, animated, made⟩ := Logged.bindOk.mp made
  rw [Logged.optionOutcome] at animated
  exact ⟨animation, animated, made⟩

theorem CaptionEntry.described (e : CaptionEntry) {text : String} {font : Option Path}
    {c : Caption Scalar} (made : (e.toCaption text font).outcome = .ok c) :
    ∃ animation idle, (e.animation.mapM fun a => a.toAnimation.outcome) = .ok animation ∧
      e.idle.mapM IdleEntry.toIdle = .ok idle ∧
      Caption.make text ⟨e.start, e.finish, e.x, e.y, animation⟩ e.fontSize font e.fontColor
        idle = .ok c := by
  obtain ⟨animation, animated, made⟩ := Logged.bindOk.mp made
  obtain ⟨idle, idled, made⟩ := Logged.bindOk.mp made
  rw [Logged.optionOutcome] at animated idled
  exact ⟨animation, idle, animated, idled, made⟩

theorem ImageEntry.keeps {e : ImageEntry} {path : Path} {i : Image Scalar}
    (made : (e.toImage path).outcome = .ok i) :
    (Overlay.image i).numbers = e.numbers ∧ (Overlay.image i).formulas = e.formulas := by
  obtain ⟨animation, animated, made⟩ := e.described made
  obtain ⟨_, _, rfl⟩ := Image.made made
  have same := optionAlong AnimationEntry.keepsNumbers animated
  exact ⟨by simp only [Overlay.numbers, Placement.numbers, numbers, same], rfl⟩

theorem CaptionEntry.keeps {e : CaptionEntry} {text : String} {font : Option Path}
    {c : Caption Scalar} (made : (e.toCaption text font).outcome = .ok c) :
    (Overlay.caption c).numbers = e.numbers ∧ (Overlay.caption c).formulas = e.formulas := by
  obtain ⟨animation, idle, animated, idled, made⟩ := e.described made
  obtain rfl := Caption.made made
  have same := optionAlong AnimationEntry.keepsNumbers animated
  have swing := optionAlong IdleEntry.keepsNumbers idled
  exact ⟨by simp only [Overlay.numbers, Placement.numbers, numbers, same, swing], rfl⟩

end Job

def Job.overlayNumbers (job : Job) : List Scalar :=
  job.images.flatMap ImageEntry.numbers ++ job.captions.flatMap CaptionEntry.numbers

def Job.numbers (job : Job) : List Scalar :=
  job.duration.toList ++ job.overlayNumbers ++
    (job.audio.toList.flatMap fun e => [e.fadeIn, e.fadeOut]) ++
    (job.fade.toList.flatMap fun e => [e.fadeIn, e.fadeOut]) ++
    job.still.toList.flatMap fun e => [e.duration, e.fadeIn]

def Job.formulas (job : Job) : List String :=
  job.images.flatMap ImageEntry.formulas ++ job.captions.flatMap CaptionEntry.formulas

theorem Job.overlaysKeep {job : Job} {homes : String → Option Path} {given : Entries String}
    {os : List (Overlay Scalar)} (made : (job.overlays homes given).outcome = .ok os) :
    os.flatMap Overlay.numbers = job.overlayNumbers ∧
      os.flatMap Overlay.formulas = job.formulas := by
  obtain ⟨images, imaged, made⟩ := Logged.bindOk.mp made
  obtain ⟨captions, captioned, last⟩ := Logged.bindOk.mp made
  cases last
  rw [Logged.eachOutcome, eachOk] at imaged captioned
  have image {e : ImageEntry} {o : Overlay Scalar} (made : (job.image homes e).outcome = .ok o) :
      o.numbers = e.numbers ∧ o.formulas = e.formulas := by
    obtain ⟨path, _, made⟩ := Logged.bindOk.mp made
    rw [Logged.mapOutcome, mapOk] at made
    obtain ⟨i, described, rfl⟩ := made
    exact ImageEntry.keeps (mapErrorOk.mp described)
  have caption {e : CaptionEntry} {o : Overlay Scalar}
      (made : (job.caption homes (job.values.update given) e).outcome = .ok o) :
      o.numbers = e.numbers ∧ o.formulas = e.formulas := by
    obtain ⟨font, _, made⟩ := Logged.bindOk.mp made
    rw [Logged.mapOutcome, mapOk] at made
    obtain ⟨c, described, rfl⟩ := made
    exact CaptionEntry.keeps (mapErrorOk.mp described)
  constructor
  · rw [List.flatMap_append, flatMapAlong (imaged.imp fun _ _ made => (image made).1),
      flatMapAlong (captioned.imp fun _ _ made => (caption made).1)]
    rfl
  · rw [List.flatMap_append, flatMapAlong (imaged.imp fun _ _ made => (image made).2),
      flatMapAlong (captioned.imp fun _ _ made => (caption made).2)]
    rfl

end OverlayMotion
