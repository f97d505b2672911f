import OverlayMotion.Proofs.NumberText
import OverlayMotion.Proofs.Serialization

/-! The printer and the parser as inverses. The text of a normal tree of finite doubles
always exists, and reads back as that tree with each constant replaced by the double that
its number text denotes. Number text is read here as a number of its own, by the reader of
floats, so that what a constant becomes does not rest on the formula parser. -/
namespace OverlayMotion.Expr

def FiniteDouble (v : Scalar) : Prop := ∃ x d, v = .float x ∧ Binary64.decode x = some d

def TextDenotes (c v : Scalar) : Prop := ∃ written x,
  numberText c = .ok written ∧ Decimal.readFloat? written.toList = some x ∧ v = .float x

theorem finiteDoubleWritable {v : Scalar} (finite : FiniteDouble v) : Writable v := by
  obtain ⟨x, d, rfl, decoded⟩ := finite
  have value : Number.finite? (.float x : Scalar) = .ok (some d.toRat) :=
    congrArg (fun o => Except.ok (Option.map Binary64.Decoded.toRat o)) decoded
  exact ⟨_, by rw [numeralText, value]⟩

theorem writtenDenoted {v : Scalar} (writable : Writable v) : TextDenotes v (denoted v) := by
  obtain ⟨text, written⟩ := writable
  have shown : numberText v = .ok (String.ofList text) := by
    rw [numberText, written]
    rfl
  obtain ⟨cs, q, plain, _, ⟨rfl, same⟩ | ⟨_, rfl, same⟩⟩ := numeralCases written
  · refine ⟨_, _, shown, ?_, same⟩
    rw [String.toList_ofList, plain.readsFloat]
  · refine ⟨_, Binary64.ofDecimal true (Decimal.numeral cs).1 (Decimal.numeral cs).2,
      shown, ?_, ?_⟩
    · rw [String.toList_ofList, plain.readsSigned]
    · rw [same]
      rfl

theorem plainReadsBack {ν : Type} [Number ν] [SignedBelowZero ν] {e : Expr ν} {text : String}
    (normal : Normal e) (bases : BasesPlain e) (rendered : render e = .ok text) :
    parse text = .ok (respelled id e) := by
  have back := renderedReadsBack keepsNamesId normal rendered
  have swapped : regrouped (respelled id e) = respelled id (regrouped e) :=
    regroupRespelled id e none
  rwa [swapped, regroupedPlain e bases] at back

/-- A normal tree of finite doubles has a text, and the text reads back as the tree with
each constant replaced by the double that its own number text denotes. -/
theorem normalTreeReadsBack {e : Expr Scalar} (normal : Normal e) (bases : BasesPlain e)
    (finite : Every FiniteDouble e) :
    ∃ text, render e = .ok text ∧ parse text = .ok (respelled id e) ∧
      Every (fun c => TextDenotes c (denoted c)) e := by
  have writable : Every Writable e := finite.weaken (fun _ => finiteDoubleWritable) e
  obtain ⟨cs, printed⟩ : ∃ cs, print id true e = .ok cs := printSucceeds e true writable
  have rendered : render e = .ok (String.ofList cs) := by
    rw [render, renderRenamed, printed]
    rfl
  exact ⟨_, rendered, plainReadsBack normal bases rendered,
    writable.weaken (fun _ => writtenDenoted) e⟩

theorem signsAndTinyConstantsReadBack :
    let half : Scalar := .float (Binary64.ofDecimal true 25 (-1))
    let tiny : Scalar := .float (Binary64.ofDecimal true 1 (-12))
    let t : Expr Scalar := .var (String.ofList ['t'])
    let e : Expr Scalar := .call (String.ofList ['m', 'a', 'x']) [
      .binary .pow (.const half) (.neg (.binary .sub t (.binary .sub t (.const tiny)))), .const tiny]
    Normal e ∧ BasesPlain e ∧ Every FiniteDouble e ∧
      (render e).toOption = some "max((-2.5)^(-(t-(t-(0)))),0)" ∧
      ∃ text, render e = .ok text ∧ parse text = .ok (respelled id e) ∧
        Every (fun c => TextDenotes c (denoted c)) e := by
  intro half tiny t e
  have finite : FiniteDouble half ∧ FiniteDouble tiny := by
    constructor
    · exact ⟨_, ⟨true, 5 * 2 ^ 50, -51⟩, rfl, by decide +kernel⟩
    · obtain ⟨d, decoded⟩ := Option.isSome_iff_exists.mp
        (show (Binary64.decode (Binary64.ofDecimal true 1 (-12))).isSome by decide +kernel)
      exact ⟨_, d, rfl, decoded⟩
  have constants : Every FiniteDouble e := by
    simp [e, t, Every, EveryAll, finite]
  have normal : Normal e := by
    have name : Token.IsName ['t'] := ⟨'t', [], rfl, rfl, by simp⟩
    have function : Token.IsName ['m', 'a', 'x'] :=
      ⟨'m', ['a', 'x'], rfl, rfl, List.forall_mem_cons.mpr ⟨rfl, List.forall_mem_singleton.mpr rfl⟩⟩
    simp [e, t, Normal, AllNormal, Expr.negate, name, function]
  have bases : BasesPlain e := by
    simp [e, t, BasesPlain, AllBasesPlain, level]
  refine ⟨normal, bases, constants, ?_, normalTreeReadsBack normal bases constants⟩
  decide +kernel

end OverlayMotion.Expr
