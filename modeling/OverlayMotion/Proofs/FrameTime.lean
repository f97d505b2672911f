import OverlayMotion.Proofs.Agreement
import OverlayMotion.Proofs.QuotedFormulas
import OverlayMotion.Proofs.Shift

/-! One fade, drawn in two ways. The opacity of an image is a factor in the formula of a filter
that works on single pixels, where the frame time goes by another name; that of a caption is an
option. An opacity names nothing but the frame time, so what is read back from the one text is,
but for that name, what is read back from the other, and both are the same function of time. -/
namespace OverlayMotion

namespace Expr

section
variable {ν : Type} [Number ν]

mutual

theorem namesRespelled (rename : String → String) : ∀ e : Expr ν,
    (respelled rename e).names = e.names.map rename
  | .const _ => rfl
  | .var _ => rfl
  | .neg e => namesRespelled rename e
  | .binary _ a b => by
    rw [respelled, names, names, namesRespelled rename a, namesRespelled rename b, List.map_append]
  | .call _ es => allNamesRespelled rename es

theorem allNamesRespelled (rename : String → String) : ∀ es : List (Expr ν),
    namesAll (respelledAll rename es) = (namesAll es).map rename
  | [] => rfl
  | e :: es => by
    rw [respelledAll, namesAll, namesAll, namesRespelled rename e, allNamesRespelled rename es,
      List.map_append]

end

def Scope.Renames (scope scope' : Scope ν) (rename : String → String) (name : String) : Prop :=
  ∃ v, scope name = some v ∧ scope' (rename name) = some v

variable {scope scope' : Scope ν} {rename : String → String}

mutual

theorem evalRenamed : ∀ {e : Expr ν}, (∀ name ∈ e.names, scope.Renames scope' rename name) →
    eval scope' (respelled rename e) = eval scope (respelled id e)
  | .const _, _ => rfl
  | .var name, bound => by
    obtain ⟨v, before, after⟩ := bound name (List.mem_singleton_self name)
    simp only [respelled, eval, before, after, id]
  | .neg e, bound => by
    simp only [respelled, eval, evalRenamed (e := e) bound]
  | .binary _ a b, bound => by
    obtain ⟨left, right⟩ := List.forall_mem_append.mp bound
    simp only [respelled, eval, evalRenamed left, evalRenamed right]
  | .call _ _, bound => callAlong (allRenamed bound)

theorem allRenamed : ∀ {es : List (Expr ν)},
    (∀ name ∈ namesAll es, scope.Renames scope' rename name) →
    List.Forall₂ (fun e e' => eval scope' e' = eval scope e) (respelledAll id es)
      (respelledAll rename es)
  | [], _ => .nil
  | _ :: _, bound => by
    obtain ⟨first, others⟩ := List.forall_mem_append.mp bound
    exact .cons (evalRenamed first) (allRenamed others)

end

def Timed (e : Expr ν) : Prop := ∀ name ∈ e.names, name = "t"

theorem namesNegate (e : Expr ν) : e.negate.names = e.names := by
  cases e <;> rfl

theorem timedCarried : Carried (Timed : Expr ν → Prop) where
  const _ := nofun
  time := List.forall_mem_singleton.mpr rfl
  negate {e} timed := by
    rw [Timed, namesNegate]
    exact timed
  binary _ ha hb := List.forall_mem_append.mpr ⟨ha, hb⟩
  call {_ es} _ some each := by
    clear some
    change ∀ name ∈ namesAll es, name = "t"
    induction es with
    | nil => exact nofun
    | cons e es ih =>
      obtain ⟨first, others⟩ := List.forall_mem_cons.mp each
      exact List.forall_mem_append.mpr ⟨first, ih others⟩

theorem Regular.readsRenamed [SignedBelowZero ν] {e : Expr ν} (regular : Regular e)
    (keeps : KeepsNames rename) {text : String} (written : e.textRenamed rename = .ok text) :
    read text = .ok (respelled rename e) := by
  have back := renderedReadsBack keeps regular.normal (mapErrorOk.mp written)
  have swapped : regrouped (respelled rename e) = respelled rename (regrouped e) :=
    regroupRespelled rename e none
  rw [swapped, regroupedPlain e regular.bases] at back
  exact mapErrorOk.mpr back

end

def AlikeInTime (pixels letters : Expr Scalar) : Prop :=
  ∀ others v, ∃ outcome : Except (Failure Scalar) Float,
    evaluate (others ++ [("T", v)]) pixels = outcome.mapError (Failure.explain pixels) ∧
      evaluate (others ++ [("t", v)]) letters = outcome.mapError (Failure.explain letters)

theorem timedAlike {e : Expr Scalar} (timed : Timed e) :
    AlikeInTime (respelled Graph.pixelNames e) (respelled id e) := by
  intro others v
  have bound (name : String) : (Scope.constants.extend (others ++ [(name, v)])) name = some v := by
    simp [Scope.extend]
  have same : eval (Scope.constants.extend (others ++ [("T", v)]))
      (respelled Graph.pixelNames e) =
        eval (Scope.constants.extend (others ++ [("t", v)])) (respelled id e) := by
    refine evalRenamed fun name inside => ?_
    rw [timed name inside]
    exact ⟨v, bound "t", bound "T"⟩
  refine ⟨eval (Scope.constants.extend (others ++ [("t", v)])) (respelled id e) >>=
    fun w => w.toFloat.mapError .fault, ?_, rfl⟩
  rw [← same]
  rfl

theorem timedPixels {e : Expr Scalar} (timed : Timed e) :
    ∀ name ∈ (respelled Graph.pixelNames e).names, name = "T" := by
  intro name inside
  rw [namesRespelled] at inside
  obtain ⟨old, among, rfl⟩ := List.mem_map.mp inside
  rw [timed old among]
  rfl

end Expr

open OverlayMotion.Expr
open OverlayMotion.Graph (Chain)

theorem Motion.fadedBy {ν : Type} [Number ν] {p : Placement ν} {isCaption : Bool} {m : Motion ν}
    {t : Timeline ν} (built : Timeline.build p.start (some p.finish) p.animation = .ok t)
    (compiled : (Motion.ofPlacement p isCaption).outcome = .ok m) : t.opacity? = .ok m.alpha := by
  obtain ⟨x, -, rest⟩ := Logged.bindOk.mp compiled
  obtain ⟨y, -, rest⟩ := Logged.bindOk.mp rest
  obtain ⟨t', observed, rest⟩ := Logged.bindOk.mp rest
  rw [Logged.mapErrorOutcome, mapErrorOk, Timeline.observedOutcome] at observed
  obtain rfl : t = t' := Except.ok.inj (built.symm.trans observed)
  obtain ⟨x, -, rest⟩ := bindOk.mp (mapErrorOk.mp rest)
  obtain ⟨y, -, rest⟩ := bindOk.mp rest
  obtain ⟨alpha, faded, same⟩ := bindOk.mp rest
  cases same
  exact faded

def WeighsPixels (factor : String) (chains : List Chain) : Prop :=
  ∃ f, (chains.flatMap Chain.filters).filter isPixelwise = [f] ∧
    f.option? "a" = some (.quoted ("alpha(X,Y)*(" ++ factor ++ ")"))

def DrawsWith (opacity : String) (chain : Chain) : Prop :=
  ∃ f, chain.filters = [f] ∧ f.name = "drawtext" ∧ f.option? "alpha" = some (.quoted opacity)

section
variable {alpha : Expr Scalar} {t : Timeline Scalar} {text : String}

theorem unweighed {i : Image Scalar} {f : Graph.Filter}
    (prepares : Graph.Prepares i none f) : ¬ isPixelwise f := by
  cases prepares with
  | pixelwise given => cases given
  | _ => simp [isPixelwise]

theorem imageWeighed {i : Image Scalar} {source base prepared output : String}
    {chains : List Chain} (built : Timeline.build i.placement.start (some i.placement.finish)
      i.placement.animation = .ok t) (fades : t.opacity? = .ok (some alpha))
    (written : alpha.textRenamed Graph.pixelNames = .ok text)
    (done : (Graph.imageChains i source base prepared output).outcome = .ok chains) :
    WeighsPixels text chains := by
  obtain ⟨scale, m, filters, x, y, enable, scaled, compiled, faded, -, -, -, rfl⟩ :=
    Graph.imageChainsMade done
  have same := Except.ok.inj (fades.symm.trans (Motion.fadedBy built compiled))
  rw [← same, Graph.alphaFilters, written, okBind] at faded
  obtain ⟨f, rfl, pixelwise, weighs⟩ : ∃ f, filters = [f] ∧ isPixelwise f ∧
      f.option? "a" = some (.quoted ("alpha(X,Y)*(" ++ text ++ ")")) :=
    ⟨_, (Except.ok.inj faded).symm, rfl, rfl⟩
  have plain {before : List Graph.Filter} (prepares : ∀ f ∈ before, Graph.Prepares i none f) :
      before.filter isPixelwise = [] :=
    List.filter_eq_nil_iff.mpr fun f inside => unweighed (prepares f inside)
  refine ⟨f, ?_, weighs⟩
  simp only [List.flatMap_cons, List.flatMap_nil, List.append_nil, Graph.prepareFilters,
    List.filter_append, List.filter_cons, plain Graph.fitPrepares,
    plain (Graph.scalePrepares scaled), pixelwise]
  rfl

theorem captionDrawn {c : Caption Scalar} {base output : String} {chain : Chain}
    (built : Timeline.build c.placement.start (some c.placement.finish)
      c.placement.animation = .ok t) (fades : t.opacity? = .ok (some alpha))
    (written : alpha.text = .ok text)
    (done : (Graph.captionChain c base output).outcome = .ok chain) : DrawsWith text chain := by
  obtain ⟨m, height, size, x, y, shown, enable, compiled, -, sized, -, -, texts, -, rfl⟩ :=
    Graph.captionChainMade done
  have same := Except.ok.inj (fades.symm.trans (Motion.fadedBy built compiled))
  rw [← same] at texts
  obtain ⟨text', rfl, written'⟩ := relValue texts
  cases written.symm.trans written'
  obtain ⟨key, -⟩ := Graph.sizeArgument sized
  exact ⟨_, rfl, rfl, (Graph.drawFilterOptions c x y _ enable key).2.2.2.1⟩

end

/-- An opacity names nothing but the frame time. The factor that an image in this window has in
the filter of its pixels, and the opacity that a caption in it is drawn with, read back as
formulas of the frame time, each under its own name of it, that are the same function. -/
theorem fadesAlike {start finish : Scalar} {animation : Option (Animation Scalar)}
    {t : Timeline Scalar} {alpha : Expr Scalar} {opacity : String}
    (built : Timeline.build start (some finish) animation = .ok t)
    (fades : t.opacity? = .ok (some alpha)) (written : alpha.text = .ok opacity) :
    (∀ name ∈ alpha.names, name = "t") ∧ ∃ factor pixels letters,
      alpha.textRenamed Graph.pixelNames = .ok factor ∧
      read factor = .ok pixels ∧ read opacity = .ok letters ∧
      (∀ name ∈ pixels.names, name = "T") ∧ AlikeInTime pixels letters ∧
      ∀ p : Placement Scalar, p.start = start → p.finish = finish → p.animation = animation →
        (∀ i : Image Scalar, i.placement = p → ∀ source base prepared output chains,
          (Graph.imageChains i source base prepared output).outcome = .ok chains →
          WeighsPixels factor chains) ∧
        ∀ c : Caption Scalar, c.placement = p → ∀ base output chain,
          (Graph.captionChain c base output).outcome = .ok chain → DrawsWith opacity chain := by
  have timed : alpha.Timed := timedCarried.opacity _ fades alpha rfl
  have regular : alpha.Regular := regularInherited.carried.opacity _ fades alpha rfl
  obtain ⟨factor, rendered⟩ : ∃ factor, renderRenamed Graph.pixelNames alpha = .ok factor :=
    renderSucceeds (textWritable written)
  have renamed : alpha.textRenamed Graph.pixelNames = .ok factor := mapErrorOk.mpr rendered
  refine ⟨timed, factor, _, _, renamed, regular.readsRenamed Graph.pixelNamesKept renamed,
    regular.readsBack written, timedPixels timed, timedAlike timed, ?_⟩
  rintro p rfl rfl rfl
  constructor
  · rintro i rfl source base prepared output chains done
    exact imageWeighed built fades renamed done
  · rintro c rfl base output chain done
    exact captionDrawn built fades written done

def fadeInAndOut : Animation Scalar :=
  ⟨some ⟨.fade, .int 2, some .easeIn, .int 1, .int 1, none⟩, .int 3,
    some ⟨.fade, .int 1, none, .int 1, .int 1, none⟩⟩

def fadingWindow : Placement Scalar := ⟨.int 0, .int 9, none, none, some fadeInAndOut⟩

def fadingImage : Image Scalar := ⟨Path.ofString "logo.png", fadingWindow, none, none, .contain⟩

def fadingCaption : Caption Scalar := ⟨"hello", fadingWindow, .int 60, none, "white", none⟩

theorem fadeInAndOutAlike :
    let factor := "if(lt(T,2),pow(min(max(T/2,0),1),3),if(lt(T,5),1,1-min(max(T-5,0),1)))"
    let opacity := "if(lt(t,2),pow(min(max(t/2,0),1),3),if(lt(t,5),1,1-min(max(t-5,0),1)))"
    (∃ chains, (Graph.imageChains fadingImage "1:v" "0:v" "img0" "v0").outcome = .ok chains ∧
      WeighsPixels factor chains) ∧
    (∃ chain, (Graph.captionChain fadingCaption "v0" "v1").outcome = .ok chain ∧
      DrawsWith opacity chain) ∧
    ∃ pixels letters, read factor = .ok pixels ∧ read opacity = .ok letters ∧
      AlikeInTime pixels letters := by
  intro factor opacity
  have shown : ((Timeline.build (.int 0) (some (.int 9)) (some fadeInAndOut)).toOption.bind
      fun t => t.opacity?.toOption.bind fun faded => faded.map fun (alpha : Expr Scalar) =>
        (alpha.text.toOption, (alpha.textRenamed Graph.pixelNames).toOption)) =
      some (some opacity, some factor) := by decide +kernel
  obtain ⟨t, built, shown⟩ := Option.bind_eq_some_iff.mp shown
  obtain ⟨faded, fades, shown⟩ := Option.bind_eq_some_iff.mp shown
  obtain ⟨alpha, rfl, texts⟩ := Option.map_eq_some_iff.mp shown
  obtain ⟨written, renamed⟩ := Prod.mk.inj texts
  rw [toOptionOk] at built fades written renamed
  obtain ⟨-, factor', pixels, letters, renamed', readPixels, readLetters, -, alike, drawn⟩ :=
    fadesAlike built fades written
  obtain rfl : factor = factor' := Except.ok.inj (renamed.symm.trans renamed')
  obtain ⟨image, caption⟩ := drawn fadingWindow rfl rfl rfl
  obtain ⟨chains, composed⟩ := succeeded (x := (Graph.imageChains fadingImage "1:v" "0:v" "img0"
    "v0").outcome) (by decide +kernel)
  obtain ⟨chain, drawn⟩ := succeeded (x := (Graph.captionChain fadingCaption "v0" "v1").outcome)
    (by decide +kernel)
  exact ⟨⟨chains, composed, image fadingImage rfl _ _ _ _ _ composed⟩,
    ⟨chain, drawn, caption fadingCaption rfl _ _ _ drawn⟩,
    pixels, letters, readPixels, readLetters, alike⟩

end OverlayMotion
