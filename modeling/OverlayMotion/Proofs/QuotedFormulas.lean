import OverlayMotion.Proofs.FormulaText
import OverlayMotion.Proofs.Fragment
import OverlayMotion.Proofs.Inspection
import OverlayMotion.Proofs.Parts
import OverlayMotion.Proofs.QuotedOption

/-! What stands in quotes in a plan. But for a caption's words and its font, which are escaped,
every quoted option is the text of a formula. No character of formula text closes a quote or
needs to be escaped, so the option is read as that text, whatever a job wrote as a position.

`Filter.QuotesFormulas` is about the arguments that the planner writes, one by one. Of those
that it does not quote nothing is said; a caption's colour is one, written behind `fontcolor=` as
it was given, and a colour with a quote in it would change what is quoted after it. -/
namespace OverlayMotion
open OverlayMotion.Expr (Normal FormulaText normalInherited)
open OverlayMotion.Token (IsName)

namespace Graph

structure HeldFormula (text : String) : Prop where
  formula : FormulaText text.toList
  held : Holds (Value.quoted text).text text

theorem formulaCovered {cs : List Char} (formula : FormulaText cs) : Covered cs cs := by
  have each : ∀ c ∈ cs, Covered [c] [c] := by
    intro c inside
    have letter := formula.letters c inside
    -- Neither an apostrophe nor a backslash is a character of formulas.
    refine coveredPlain ?_ ?_
    · rintro rfl
      contradiction
    · rintro rfl
      contradiction
  have covered := Covered.each each
  rwa [List.flatMap_singleton'] at covered

theorem heldFormula {text : String} (formula : FormulaText text.toList) : HeldFormula text :=
  ⟨formula, (formulaCovered formula).quoted⟩

def Argument.QuotesFormula (a : Argument) : Prop :=
  ∀ text, a.value = .quoted text → HeldFormula text

@[simp] theorem placedQuotes (text : String) : (placed text).QuotesFormula := nofun

@[simp] theorem namedQuotes (key text : String) : (named key text).QuotesFormula := nofun

theorem quotesFormula {key : Option String} {text : String} (formula : FormulaText text.toList) :
    Argument.QuotesFormula ⟨key, .quoted text⟩ := by
  rintro _ ⟨⟩
  exact heldFormula formula

def Filter.QuotesFormulas (f : Filter) : Prop :=
  ∀ a ∈ f.arguments, f.name = "drawtext" ∧ a.key ∈ [some "text", some "fontfile"] ∨ a.QuotesFormula

theorem allQuote {f : Filter} (each : ∀ a ∈ f.arguments, a.QuotesFormula) : f.QuotesFormulas :=
  fun a inside => .inr (each a inside)

theorem pixelFormula {channel : String} (named : IsName channel.toList) :
    FormulaText (channel ++ "(X,Y)").toList := by
  have spelled : "(X,Y)" =
      String.ofList (Expr.parenthesized (Expr.commaSeparated [['X'], ['Y']])) := rfl
  rw [spelled, String.toList_append, String.toList_ofList]
  refine .applied named (List.forall_mem_cons.mpr ⟨?_, List.forall_mem_singleton.mpr ?_⟩)
  · exact .wordy rfl
  · exact .wordy rfl

theorem wholeFormula (n : Int) : FormulaText (toString n).toList := by
  have digits (n : Nat) : FormulaText n.repr.toList := by
    rw [Nat.repr, String.toList_ofList]
    exact .digits (Decimal.digitsRun n).digits
  cases n with
  | ofNat n => exact digits n
  | negSucc n =>
    have signed : toString (Int.negSucc n) = "-" ++ (n + 1).repr := rfl
    rw [signed, String.toList_append]
    exact .append (.plain rfl (by decide)) (digits (n + 1))

theorem leastFormula {side : String} (named : IsName side.toList) (n : Int) :
    FormulaText ("min(" ++ side ++ "," ++ toString n ++ ")").toList := by
  have least : IsName "min".toList := Expr.named rfl rfl rfl
  have called : FormulaText ("min".toList ++ Expr.parenthesized
      (Expr.commaSeparated [side.toList, (toString n).toList])) :=
    .applied least (List.forall_mem_cons.mpr ⟨.name named,
      List.forall_mem_singleton.mpr (wholeFormula n)⟩)
  simpa [Expr.parenthesized, Expr.commaSeparated] using called

theorem pixelNamesKept : Expr.KeepsNames pixelNames := by
  intro name named
  unfold pixelNames
  split
  · exact Expr.named rfl rfl rfl
  · exact named

variable {ν : Type} [Number ν]

theorem normalPlacement {p : Placement ν} {isCaption : Bool} {m : Motion ν}
    (compiled : (Motion.ofPlacement p isCaption).outcome = .ok m) : m.Each Normal :=
  normalInherited.placement (fun source _ => Expr.readNormal source) isCaption m compiled

theorem normalWidth (i : Image ν) :
    Returns (fun width => ∀ e ∈ width, Normal e) (frameWidth? i) := by
  refine normalInherited.carried.zoomSize.bind fun size normal => Returns.option fun factor given => ?_
  split_ifs
  · exact .ok (normal factor given)
  · have frame : Normal (.var "iw" : Expr ν) := Expr.named rfl rfl rfl
    exact (normalInherited.carried.mul frame (normal factor given)).mapError

theorem Prepares.quotes {i : Image ν} {alpha : Option (Expr ν)} {f : Filter}
    (normal : ∀ e ∈ alpha, Normal e) (prepares : Prepares i alpha f) : f.QuotesFormulas := by
  refine allQuote ?_
  cases prepares with
  | framewise framed written =>
    have formula := Expr.textFormula (normalWidth i _ framed _ rfl) written
    exact List.forall_mem_cons.mpr ⟨quotesFormula formula, by simp⟩
  | @pixelwise tree factor given written =>
    have channel (key : String) (named : IsName key.toList) :
        (quotedAs key (key ++ "(X,Y)")).QuotesFormula := quotesFormula (pixelFormula named)
    have written := Expr.renderedFormula pixelNamesKept (normal tree given) (mapErrorOk.mp written)
    have weighed : FormulaText ("alpha(X,Y)*(" ++ factor ++ ")").toList := by
      have opacity : FormulaText ("alpha" ++ "(X,Y)").toList :=
        pixelFormula (Expr.named rfl rfl rfl)
      have product := opacity.append ((FormulaText.symbol .mul).append written.parenthesized)
      simpa [Expr.parenthesized, Operator.symbol] using product
    simp only [List.forall_mem_cons]
    exact ⟨channel "r" (Expr.named rfl rfl rfl), channel "g" (Expr.named rfl rfl rfl),
      channel "b" (Expr.named rfl rfl rfl), quotesFormula weighed, List.forall_mem_nil _⟩
  | _ => simp

theorem layQuotes {m : Motion ν} {x y enable : String} (normal : m.Each Normal)
    (across : m.x.text = .ok x) (down : m.y.text = .ok y) (switched : m.enable.text = .ok enable) :
    (layFilter x y enable).QuotesFormulas := by
  refine allQuote ?_
  simp only [layFilter, List.forall_mem_cons]
  exact ⟨quotesFormula (Expr.textFormula normal.x across),
    quotesFormula (Expr.textFormula normal.y down),
    quotesFormula (Expr.textFormula normal.enable switched), namedQuotes _ _,
    List.forall_mem_nil _⟩

theorem sizeQuotes {c : Caption ν} {size : Argument} (sized : fontSizeArgument c = .ok size) :
    size.QuotesFormula := by
  obtain ⟨-, tree, zoomed, value⟩ := sizeArgument sized
  cases tree with
  | none =>
    obtain ⟨text, -, same⟩ := value
    rintro _ quoted
    cases same.symm.trans quoted
  | some tree =>
    obtain ⟨text, written, same⟩ := value
    rintro _ quoted
    cases same.symm.trans quoted
    have normal : Normal tree := normalInherited.carried.zoomSize _ (mapErrorOk.mp zoomed) tree rfl
    exact heldFormula (Expr.textFormula normal written)

theorem Draws.quotes {o : Overlay ν} {f : Filter} (draws : Draws o f) : f.QuotesFormulas := by
  cases draws with
  | prepared compiled prepares => exact prepares.quotes (normalPlacement compiled).alpha
  | laid compiled across down switched =>
    exact layQuotes (normalPlacement compiled) across down switched
  | @drawn c m height size x y alpha enable compiled raised sized across down faded switched =>
    have normal := normalPlacement compiled
    -- What is drawn is not the motion's height but the one with a float on top.
    have high : Normal height :=
      normalInherited.carried.floated normal.y height (mapErrorOk.mp raised)
    refine List.forall_mem_append.mpr ⟨List.forall_mem_append.mpr
      ⟨List.forall_mem_append.mpr ⟨?words, ?font⟩, ?fading⟩, ?switching⟩
    case words =>
      simp only [List.forall_mem_cons]
      exact ⟨.inl ⟨rfl, by simp [quotedAs]⟩, .inr (sizeQuotes sized), .inr (namedQuotes _ _),
        .inr (quotesFormula (Expr.textFormula normal.x across)),
        .inr (quotesFormula (Expr.textFormula high down)), List.forall_mem_nil _⟩
    case font =>
      intro a inside
      obtain ⟨file, -, rfl⟩ := Option.map_eq_some_iff.mp (Option.mem_toList.mp inside)
      exact .inl ⟨rfl, by simp [quotedAs]⟩
    case fading =>
      have opacity := normal.alpha
      generalize m.alpha = tree at faded opacity
      cases faded with
      | none => exact List.forall_mem_nil _
      | some written =>
        exact List.forall_mem_singleton.mpr
          (.inr (quotesFormula (Expr.textFormula (opacity _ rfl) written)))
    case switching =>
      exact List.forall_mem_singleton.mpr
        (.inr (quotesFormula (Expr.textFormula normal.enable switched)))

theorem Closes.quotes {f : Filter} (closes : Closes f) : f.QuotesFormulas := by
  refine allQuote ?_
  cases closes with
  | shrunk width height =>
    simp only [List.forall_mem_cons]
    exact ⟨quotesFormula (leastFormula (Expr.named rfl rfl rfl : IsName "iw".toList) width),
      quotesFormula (leastFormula (Expr.named rfl rfl rfl : IsName "ih".toList) height),
      namedQuotes _ _, List.forall_mem_nil _⟩
  | faded length => simp [fadingIn]
  | _ => simp

theorem Fades.quotes {name : String} {f : Filter} (fades : Fades name f) : f.QuotesFormulas := by
  refine allQuote ?_
  cases fades with
  | entering length => simp [fadingIn]
  | leaving start length => simp [fadingOut]

theorem planQuotes {c : Composition ν} {p : Plan} (planned : (plan c).outcome = .ok p) :
    ∀ f ∈ p.allFilters, f.QuotesFormulas := by
  obtain ⟨layered, fades, closing, sounds, parts, whole⟩ := planParts planned
  rw [whole]
  refine List.forall_mem_append.mpr ⟨List.forall_mem_append.mpr
    ⟨List.forall_mem_append.mpr ⟨?overlays, ?picture⟩, ?closing⟩, ?sound⟩
  case overlays =>
    intro f inside
    obtain ⟨o, -, draws⟩ := parts.layered f inside
    exact draws.quotes
  case picture => exact fun f inside => (pictureFilters parts.fades f inside).quotes
  case closing =>
    exact List.forall_mem_cons.mpr ⟨allQuote (by simp [Composition.sizing]),
      fun f inside => (parts.closing f inside).quotes⟩
  case sound =>
    obtain ⟨total, -, heard⟩ := parts.sounds
    exact fun f inside => (soundFilters heard f inside).quotes

end Graph

/-- No formula can end the quotes it stands in. The text of a formula that was read has few
characters and parentheses that match, if its numbers are finite; and what the filters of a plan
quote are such texts, each held by its option as it is, but for the words and the font of a
caption. -/
theorem Rendering.formulasHeld :
    (∀ {source : String} {e : Expr Scalar}, Expr.parse source = .ok e →
      (∀ {tokens text}, Token.tokenize source.toList = .ok tokens → .number text ∈ tokens →
        Expr.FiniteDouble (Expr.literal text)) →
      ∃ text, e.render = .ok text ∧ FormulaText text.toList) ∧
    ∀ (r : Rendering) (h : Host) (p : Graph.Plan), (r.plan h).1 = .ok p →
      ∀ f ∈ p.allFilters, f.QuotesFormulas := by
  refine ⟨fun parsed finite => Expr.parsedFormula parsed finite, fun r h p planned => ?_⟩
  rw [planOutcome] at planned
  obtain ⟨base, -, planned⟩ := bindOk.mp planned
  exact Graph.planQuotes (mapErrorOk.mp planned)

def foreignDigit : Rendering :=
  let placement (x : Option (Coordinate Scalar)) : Placement Scalar :=
    ⟨.int 0, .int 6, x, none, some ⟨some ⟨.zoom, .int 1, none, .int 0, .int 1, none⟩, .int 2, none⟩⟩
  { growingAndFloating with
    overlays := [
      .image ⟨⟨0, ["a.png"]⟩, placement none, some 480, none, .contain⟩,
      .caption ⟨"It's time", placement (some (.formula "W / ٣")), .int 60, none, "white", none⟩] }

theorem foreignDigitHeld :
    let host : Host := ⟨.empty, [], fun _ => none, [], [], []⟩
    ∃ (e : Expr Scalar) (text : String) (p : Graph.Plan), Expr.parse "W / ٣" = .ok e ∧
      e.render = .ok text ∧ FormulaText text.toList ∧ (foreignDigit.plan host).1 = .ok p ∧
      ∀ f ∈ p.allFilters, f.QuotesFormulas := by
  intro host
  have scanned : Token.tokenize "W / ٣".toList =
      .ok [.name ['W'], Token.symbol '/', .number ['٣']] := by rfl
  have parsed : Expr.parse "W / ٣" = .ok (.binary .div (.var (String.ofList ['W']))
      (.const (Expr.literal ['٣'])) : Expr Scalar) := by
    rw [Expr.parsedIffWritten]
    exact ⟨_, scanned, .product (.div (.signed (.power (.primary .name)))
      (.power (.primary .number)))⟩
  have finite : ∀ {tokens text}, Token.tokenize "W / ٣".toList = .ok tokens →
      .number text ∈ tokens → Expr.FiniteDouble (Expr.literal text) := by
    intro tokens text ht inside
    rw [scanned] at ht
    cases ht
    have three : text = ['٣'] := by simpa using inside
    rw [three]
    exact ⟨_, ⟨false, 3 * 2 ^ 51, -51⟩, rfl, by decide +kernel⟩
  have succeeds : (foreignDigit.plan host).1.isOk = true := by decide +kernel
  obtain ⟨p, planned⟩ := succeeded succeeds
  obtain ⟨text, rendered, formula⟩ := Rendering.formulasHeld.1 parsed finite
  exact ⟨_, text, p, parsed, rendered, formula, planned,
    Rendering.formulasHeld.2 foreignDigit host p planned⟩

end OverlayMotion
