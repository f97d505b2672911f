import OverlayMotion.Proofs.Legibility
import OverlayMotion.Proofs.Preparation
import OverlayMotion.Proofs.RoundTrip

/-! Samples of overlays. Where the numbers of a job, the frame time and the canvas are moderate
and no phase is so short that its text would be zero, every expression of every overlay has a
value at that time. -/
namespace OverlayMotion
open OverlayMotion.Expr (Scope)
open Scalar (Within Loose small)

def Moderate (v : Scalar) : Prop := ∃ q, v.Worth q ∧ |q| ≤ 10 ^ 6

theorem Moderate.within {v : Scalar} (moderate : Moderate v) : Within 20 v := by
  obtain ⟨q, worth, small⟩ := moderate
  exact ⟨q, worth, small.trans (by norm_num)⟩

structure Encoding.Moderate (e : Encoding) : Prop where
  width : |e.width| ≤ 10 ^ 6
  height : |e.height| ≤ 10 ^ 6

def Preview.scope (e : Encoding) (measured : Entries Float) (isCaption : Bool) (time : Float) :
    Scope Scalar :=
  Scope.constants.extend (bindings e measured isCaption time)

section
variable {encoding : Encoding} {time : Float}

theorem sideLoose {n : Int} (moderate : |n| ≤ 10 ^ 6) : Loose 20 (.int n) := by
  have small : |(n : Rat)| ≤ 10 ^ 6 := by exact_mod_cast moderate
  exact small.trans (by norm_num)

theorem Preview.scopeServes (measured : Entries Float) (isCaption : Bool)
    (canvas : encoding.Moderate) (moderate : Moderate (.float time)) :
    Serves (symbolsFor isCaption) 20 (scope encoding measured isCaption time) := by
  constructor
  · obtain ⟨q, stands, small⟩ := moderate.within
    exact ⟨time, q, by cases isCaption <;> rfl, stands, small⟩
  -- Any double will do as a measured size, so only the sides of the canvas need a bound.
  · have width := sideLoose canvas.width
    have height := sideLoose canvas.height
    have known : ∀ name ∈ (symbolsFor isCaption).dimensions,
        scope encoding measured isCaption time name = some (.int encoding.width) ∨
        scope encoding measured isCaption time name = some (.int encoding.height) ∨
        ∃ x, scope encoding measured isCaption time name = some (.float x) := by
      cases isCaption <;>
        simp only [symbolsFor, Symbols.dimensions, captionSymbols, imageSymbols, if_true,
          Bool.false_eq_true, if_false, List.forall_mem_cons, List.not_mem_nil, false_implies,
          implies_true, and_true] <;>
        exact ⟨.inl rfl, .inr (.inl rfl), .inr (.inr ⟨_, rfl⟩), .inr (.inr ⟨_, rfl⟩)⟩
    intro name inside
    obtain bound | bound | ⟨x, bound⟩ := known name inside
    · exact ⟨_, bound, width⟩
    · exact ⟨_, bound, height⟩
    · exact ⟨_, bound, trivial⟩

theorem spokenHasValue {source : String} {bindings : List (String × Scalar)}
    (spoken : Spoken {Scope.constants.extend bindings} source) :
    ∃ e x, (Expr.read source : Except (Expr.Error Scalar) (Expr Scalar)) = .ok e ∧
      Expr.evaluate bindings e = .ok x := by
  obtain ⟨tree, sturdy, rendered⟩ := spoken
  obtain ⟨normal, bases, v, value, loose⟩ := sturdy.yields _ rfl
  obtain ⟨x, double⟩ := loose.toFloat le_rfl
  refine ⟨Expr.respelled id tree, x, ?_, ?_⟩
  · exact mapErrorOk.mpr (Expr.plainReadsBack normal bases rendered)
  · refine mapErrorOk.mpr (bindOk.mpr ⟨v, value, ?_⟩)
    exact mapErrorOk.mpr double

theorem Preview.sampleHolds {measured : Entries Float} {p : Preview}
    (spoken : ∀ entry ∈ p.expressions,
      Spoken {scope encoding measured p.isCaption time} entry.2) :
    ∃ values, p.sample encoding measured time = .ok values ∧
      values.map Prod.fst = p.expressions.map Prod.fst := by
  obtain ⟨values, sampled, along⟩ := eachMade
    (P := fun entry value => Prod.fst value = Prod.fst entry)
    fun entry (inside : entry ∈ p.expressions) => by
      obtain ⟨e, x, read, value⟩ := spokenHasValue (spoken entry inside)
      exact ⟨(entry.1, x), bindOk.mpr ⟨e, read, bindOk.mpr ⟨x, value, rfl⟩⟩, rfl⟩
  exact ⟨values, sampled, alongMap along⟩

end

namespace Rendering
variable {job : Job} {r : Rendering}

theorem Keeps.sampled (kept : r.Keeps job) (numbers : ∀ v ∈ job.numbers, Moderate v)
    (plain : job.formulas = []) (scope : Bool → Scope Scalar)
    (lasting : ∀ o ∈ r.overlays, ∀ a ∈ o.placement.animation, a.Outlasting o.placement.start) :
    ∀ o ∈ r.overlays, o.Compilable {scope o.isCaption} 20 ∧ Readable o.formulas := by
  intro o inside
  have bare {source : String} (given : source ∈ o.formulas) : False := by
    have among := kept.formulaAmong inside given
    rw [plain] at among
    cases among
  refine ⟨⟨?_, fun source given => (bare given).elim, fun _ => lasting o inside⟩,
    fun source given => (bare given).elim⟩
  exact fun v given => (numbers v (kept.numberAmong inside given)).within

/-- With no formula among its positions, and no phase too short to be written, a job of
moderate numbers can be sampled at every moderate time, whatever was measured. -/
theorem samplesEverything {s : Settings} {values : Entries String} {host : Host}
    (prepared : (prepare job s values host).1 = .ok r)
    (numbers : ∀ v ∈ job.numbers, Moderate v) (plain : job.formulas = [])
    (lasting : ∀ o ∈ r.overlays, ∀ a ∈ o.placement.animation, a.Outlasting o.placement.start)
    (canvas : r.encoding.Moderate) {time : Float} (moderate : Moderate (.float time))
    (measured : Entries Float) (h : Host) :
    ∃ previews samples, (r.preview h).1 = .ok previews ∧ (r.sample time measured h).1 = .ok samples ∧
      previews.length = r.overlays.length ∧
      samples.map (·.map Prod.fst) = previews.map (·.expressions.map Prod.fst) := by
  have sampled := (preparedKeeps prepared).sampled numbers plain
    (Preview.scope r.encoding measured · time) lasting
  obtain ⟨previews, shown, along⟩ := eachMade (f := fun o => (Preview.ofOverlay o).outcome)
    (P := fun _ p => ∀ entry ∈ p.expressions,
      Spoken {Preview.scope r.encoding measured p.isCaption time} entry.2) fun o inside => by
      obtain ⟨compilable, readable⟩ := sampled o inside
      have serves := Preview.scopeServes measured o.isCaption canvas moderate
      obtain ⟨p, made, same, spoken⟩ := Preview.ofOverlayHolds (by omega) compilable
        (fun _ only => only ▸ serves) readable
      exact ⟨p, made, by rw [same]; exact spoken⟩
  have previewed : (r.preview h).1 = .ok previews := by
    refine mapErrorOk.mpr ?_
    rw [Logged.eachOutcome]
    exact shown
  obtain ⟨samples, valued, keyed⟩ := eachMade
    (f := fun (p : Preview) => Failure.ofFormula (p.sample r.encoding measured time))
    (P := fun p values => List.map Prod.fst values = p.expressions.map Prod.fst)
    fun p (inside : p ∈ previews) => by
      obtain ⟨values, made, same⟩ := Preview.sampleHolds (alongMember along p inside)
      exact ⟨values, mapErrorOk.mpr made, same⟩
  refine ⟨previews, samples, previewed, ?_, along.length_eq.symm, alongMap keyed⟩
  simp only [sample, Session.bindOutcome, previewed, okBind, Session.eachExcept]
  exact valued

theorem zoomThenFadeSampled :
    let at' (n : Nat) : Scalar := .float (small n)
    let job : Job :=
      { baseVideo := "base.mp4", duration := none, output := Job.noOutput, images := []
        captions := [⟨"Hello", at' 0, at' 3, at' 2, none, "white", some (.number (at' 1)), none,
          some ⟨some ⟨["zoom"], at' 1, some "ease-out", at' 1, at' 2, some (at' 3)⟩, at' 1,
            some ⟨["fade"], at' 1, none, at' 1, at' 2, none⟩⟩, none⟩]
        audio := none, fade := none, still := none, values := [], directory := none }
    let host : Host := ⟨.empty, [], fun _ => none, [], [], []⟩
    ∃ r, (prepare job .standard [] host).1 = .ok r ∧
      ∃ previews samples, (r.preview host).1 = .ok previews ∧
        (r.sample (small 2) [] host).1 = .ok samples ∧ previews.length = r.overlays.length ∧
        samples.map (·.map Prod.fst) = previews.map (·.expressions.map Prod.fst) := by
  intro at' job host
  have good : ∃ r ∈ (prepare job .standard [] host).1.toOption, r.encoding.width = 1080 ∧
      r.encoding.height = 1920 ∧ ∀ o ∈ r.overlays, ∀ a ∈ o.placement.animation,
        a.Outlasting o.placement.start := by decide +kernel
  obtain ⟨r, found, width, height, lasting⟩ := good
  have prepared : (prepare job .standard [] host).1 = .ok r := by
    cases known : (prepare job .standard [] host).1 with
    | error e => simp [known, Except.toOption] at found
    | ok r' => simpa [known, Except.toOption] using found
  have few {n : Nat} (most : n ≤ 3) : Moderate (at' n) := by
    have bounded : |(n : Rat)| ≤ 10 ^ 6 := by
      rw [abs_of_nonneg n.cast_nonneg]
      exact_mod_cast most.trans (by norm_num)
    exact ⟨n, Scalar.smallStands most, bounded⟩
  have numbers : ∀ v ∈ job.numbers, Moderate v := by
    change ∀ v ∈ [at' 0, at' 3, at' 1, at' 1, at' 1, at' 1, at' 2, at' 3, at' 1, at' 1, at' 2, at' 2],
      Moderate v
    simp only [List.forall_mem_cons, List.not_mem_nil, false_implies, implies_true, and_true]
    exact ⟨few (by omega), few (by omega), few (by omega), few (by omega), few (by omega),
      few (by omega), few (by omega), few (by omega), few (by omega), few (by omega),
      few (by omega), few (by omega)⟩
  have canvas : r.encoding.Moderate := ⟨by rw [width]; norm_num, by rw [height]; norm_num⟩
  exact ⟨r, prepared, samplesEverything prepared numbers rfl lasting canvas (few (by omega)) [] host⟩

end Rendering

end OverlayMotion
