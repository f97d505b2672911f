import OverlayMotion.Graph.Composition
import OverlayMotion.Proofs.Outcome

/-! The filters that graphs are put together from, each by its shape: what prepares an image
and lays it, what draws a caption, fades, and what a closing still needs. A shape says of the
texts in it which trees or numbers they are the texts of. -/
namespace OverlayMotion.Graph

variable {ν : Type} [Number ν]

def prepareFilters (i : Image ν) (scale alpha : List Filter) : List Filter :=
  fitFilters i ++ scale ++ ⟨"format", [placed "rgba"]⟩ :: alpha

def layFilter (x y enable : String) : Filter :=
  ⟨"overlay", [quotedAs "x" x, quotedAs "y" y, quotedAs "enable" enable, named "shortest" "1"]⟩

theorem imageChainsMade {i : Image ν} {source base prepared output : String} {chains : List Chain}
    (done : (imageChains i source base prepared output).outcome = .ok chains) :
    ∃ scale m alpha x y enable, scaleFilters i = .ok scale ∧
      (Motion.ofPlacement i.placement false).outcome = .ok m ∧ alphaFilters m.alpha = .ok alpha ∧
      m.x.text = .ok x ∧ m.y.text = .ok y ∧ m.enable.text = .ok enable ∧
      chains = [⟨[source], prepareFilters i scale alpha, prepared⟩,
        ⟨[base, prepared], [layFilter x y enable], output⟩] := by
  simp only [imageChains, Logged.bindOk, Logged.liftOutcome, Logged.pureOutcome] at done
  obtain ⟨scale, scaled, m, compiled, alpha, faded, x, across, y, down, enable, switched, same⟩ :=
    done
  cases same
  exact ⟨scale, m, alpha, x, y, enable, scaled, compiled, faded, across, down, switched, rfl⟩

inductive Prepares (i : Image ν) (alpha : Option (Expr ν)) : Filter → Prop
  | boxed (width height ratio : String) : Prepares i alpha
      ⟨"scale", [placed width, placed height, named "force_original_aspect_ratio" ratio]⟩
  | cropped (width height : String) : Prepares i alpha ⟨"crop", [placed width, placed height]⟩
  | framewise {width : Expr ν} {text : String} (framed : frameWidth? i = .ok (some width))
      (written : width.text = .ok text) : Prepares i alpha
      ⟨"scale", [quotedAs "w" text, named "h" "-1", named "eval" "frame"]⟩
  | fixed (width : String) : Prepares i alpha ⟨"scale", [placed width, placed "-1"]⟩
  | format : Prepares i alpha ⟨"format", [placed "rgba"]⟩
  | pixelwise {tree : Expr ν} {factor : String} (given : tree ∈ alpha)
      (written : tree.textRenamed pixelNames = .ok factor) : Prepares i alpha
      ⟨"geq", [quotedAs "r" "r(X,Y)", quotedAs "g" "g(X,Y)", quotedAs "b" "b(X,Y)",
        quotedAs "a" ("alpha(X,Y)*(" ++ factor ++ ")")]⟩

section
variable {i : Image ν} {alpha : Option (Expr ν)} {filters : List Filter}

theorem fitPrepares : ∀ f ∈ fitFilters i, Prepares i alpha f := by
  unfold fitFilters
  split
  · cases i.fit <;> simp only [boxFilters, List.forall_mem_cons]
    · exact ⟨.boxed _ _ _, .cropped _ _, nofun⟩
    · exact ⟨.boxed _ _ _, nofun⟩
  · exact nofun

theorem scalePrepares (done : scaleFilters i = .ok filters) :
    ∀ f ∈ filters, Prepares i alpha f := by
  obtain ⟨width, framed, scaled⟩ := bindOk.mp done
  cases width with
  | some width =>
    obtain ⟨text, written, same⟩ := bindOk.mp scaled
    cases same
    rintro _ (_ | ⟨_, ⟨⟩⟩)
    exact .framewise (mapErrorOk.mp framed) written
  | none =>
    cases given : i.width with
    | some width =>
      simp only [given] at scaled
      cases scaled
      rintro _ (_ | ⟨_, ⟨⟩⟩)
      exact .fixed _
    | none =>
      simp only [given] at scaled
      cases scaled
      exact nofun

theorem alphaPrepares (done : alphaFilters alpha = .ok filters) :
    ∀ f ∈ filters, Prepares i alpha f := by
  cases alpha with
  | none =>
    cases done
    exact nofun
  | some tree =>
    obtain ⟨factor, written, same⟩ := bindOk.mp done
    cases same
    rintro _ (_ | ⟨_, ⟨⟩⟩)
    exact .pixelwise rfl written

theorem prepares {scale : List Filter} (scaled : scaleFilters i = .ok scale)
    (faded : alphaFilters alpha = .ok filters) :
    ∀ f ∈ prepareFilters i scale filters, Prepares i alpha f := by
  simp only [prepareFilters, List.mem_append, List.mem_cons]
  rintro f ((inside | inside) | rfl | inside)
  · exact fitPrepares f inside
  · exact scalePrepares scaled f inside
  · exact .format
  · exact alphaPrepares faded f inside

end

def drawFilter (c : Caption ν) (size : Argument) (x y : String) (alpha : Option String)
    (enable : String) : Filter :=
  ⟨"drawtext", [quotedAs "text" (escapeText c.text), size, named "fontcolor" c.fontColor,
    quotedAs "x" x, quotedAs "y" y] ++
    (c.fontFile.map fun file => quotedAs "fontfile" (escapePath file)).toList ++
    (alpha.map (quotedAs "alpha")).toList ++ [quotedAs "enable" enable]⟩

theorem captionChainMade {c : Caption ν} {base output : String} {chain : Chain}
    (done : (captionChain c base output).outcome = .ok chain) :
    ∃ m height size x y alpha enable,
      (Motion.ofPlacement c.placement true).outcome = .ok m ∧
      Expr.ofTrees (floated c.placement.start m.y c.idle) = .ok height ∧
      fontSizeArgument c = .ok size ∧ m.x.text = .ok x ∧ height.text = .ok y ∧
      Option.Rel (fun e text => e.text = .ok text) m.alpha alpha ∧ m.enable.text = .ok enable ∧
      chain = ⟨[base], [drawFilter c size x y alpha enable], output⟩ := by
  simp only [captionChain, Logged.bindOk, Logged.liftOutcome, Logged.pureOutcome] at done
  obtain ⟨m, compiled, height, raised, size, sized, x, across, y, down, alpha, faded, enable,
    switched, same⟩ := done
  rw [Logged.optionOutcome, optionOk] at faded
  refine ⟨m, height, size, x, y, alpha, enable, compiled, raised, sized, across, down, faded,
    switched, ?_⟩
  cases same
  cases given : c.fontFile <;> cases alpha <;> simp [drawFilter, given]

section
variable (c : Caption ν) {size : Argument} (x y : String) (alpha : Option String) (enable : String)
omit [Number ν]

theorem drawFilterKeys (sized : size.key = some "fontsize") :
    ((drawFilter c size x y alpha enable).arguments.map Argument.key).Nodup := by
  cases given : c.fontFile <;> cases alpha <;> simp [drawFilter, given, quotedAs, named, sized]

theorem drawFilterOptions (sized : size.key = some "fontsize") :
    (drawFilter c size x y alpha enable).option? "x" = some (.quoted x) ∧
      (drawFilter c size x y alpha enable).option? "y" = some (.quoted y) ∧
      (drawFilter c size x y alpha enable).option? "enable" = some (.quoted enable) ∧
      (drawFilter c size x y alpha enable).option? "alpha" = alpha.map .quoted ∧
      (drawFilter c size x y alpha enable).option? "fontsize" = some size.value := by
  cases given : c.fontFile <;> cases alpha <;>
    simp [drawFilter, Filter.option?, given, quotedAs, named, sized]

end

theorem sizeArgument {c : Caption ν} {argument : Argument}
    (done : fontSizeArgument c = .ok argument) : argument.key = some "fontsize" ∧
      ∃ size, Expr.ofTrees (zoomSize? c.placement.start c.placement.animation c.fontSize) =
        .ok size ∧ match size with
          | some e => ∃ text, e.text = .ok text ∧ argument.value = .quoted text
          | none =>
            ∃ text, Expr.numberText c.fontSize = .ok text ∧ argument.value = .plain text := by
  obtain ⟨size, sized, rest⟩ := bindOk.mp done
  cases size with
  | some e =>
    obtain ⟨text, written, same⟩ := bindOk.mp rest
    cases same
    exact ⟨rfl, some e, sized, text, written, rfl⟩
  | none =>
    obtain ⟨text, written, same⟩ := bindOk.mp rest
    cases same
    exact ⟨rfl, none, sized, text, written, rfl⟩

def fadingIn (name length : String) : Filter :=
  ⟨name, [named "t" "in", named "st" "0", named "d" length]⟩

def fadingOut (name start length : String) : Filter :=
  ⟨name, [named "t" "out", named "st" start, named "d" length]⟩

inductive Fades (name : String) : Filter → Prop
  | entering (length : String) : Fades name (fadingIn name length)
  | leaving (start length : String) : Fades name (fadingOut name start length)

theorem Fades.named {name : String} {f : Filter} (fades : Fades name f) : f.name = name := by
  cases fades <;> rfl

inductive FadesOut (name : String) (length : ν) : Option ν → List Filter → Prop
  | never {total : Option ν} (none : Number.isPositive length = false) :
      FadesOut name length total []
  | unknown : FadesOut name length none []
  | faded {total begins : ν} {start d : String} (lasting : Number.isPositive length = true)
      (computed : fadeOutStart total length = .ok begins)
      (startText : Expr.numberText begins = .ok start)
      (lengthText : Expr.numberText length = .ok d) :
      FadesOut name length (some total) [fadingOut name start d]

section
variable {name : String} {fadeIn fadeOut : ν} {filters : List Filter}

theorem fadeInMade (done : fadeInFilters name fadeIn = .ok filters) :
    ∀ f ∈ filters, ∃ d, f = fadingIn name d := by
  unfold fadeInFilters at done
  split at done
  · obtain ⟨d, -, same⟩ := bindOk.mp done
    cases same
    rintro _ (_ | ⟨_, ⟨⟩⟩)
    exact ⟨d, rfl⟩
  · cases done
    exact nofun

theorem fadesMade {total : Option ν} {skipped : Notice ν}
    (done : (fadeFilters name fadeIn fadeOut total skipped).outcome = .ok filters) :
    ∃ entering leaving, filters = entering ++ leaving ∧
      (∀ f ∈ entering, ∃ d, f = fadingIn name d) ∧ FadesOut name fadeOut total leaving := by
  obtain ⟨entering, entered, rest⟩ := Logged.bindOk.mp done
  have enters := fadeInMade entered
  split at rest
  · rename_i lasting
    cases total with
    | none =>
      obtain ⟨_, _, same⟩ := Logged.bindOk.mp rest
      cases same
      exact ⟨filters, [], by simp, enters, .unknown⟩
    | some total =>
      obtain ⟨f, left, same⟩ := Logged.bindOk.mp rest
      cases same
      obtain ⟨begins, computed, left⟩ := bindOk.mp left
      obtain ⟨start, startText, left⟩ := bindOk.mp left
      obtain ⟨d, lengthText, same⟩ := bindOk.mp left
      cases same
      exact ⟨entering, _, rfl, enters,
        .faded lasting (mapErrorOk.mp computed) startText lengthText⟩
  · rename_i never
    cases rest
    exact ⟨filters, [], by simp, enters, .never (Bool.eq_false_iff.mpr never)⟩

theorem filtersFade {total : Option ν} {skipped : Notice ν}
    (done : (fadeFilters name fadeIn fadeOut total skipped).outcome = .ok filters) :
    ∀ f ∈ filters, Fades name f := by
  obtain ⟨entering, leaving, rfl, enters, leaves⟩ := fadesMade done
  refine List.forall_mem_append.mpr ⟨fun f inside => ?_, ?_⟩
  · obtain ⟨d, rfl⟩ := enters f inside
    exact .entering d
  · cases leaves with
    | never none => exact nofun
    | unknown => exact nofun
    | faded => exact List.forall_mem_singleton.mpr (.leaving _ _)

theorem pictureFilters {c : Composition ν} (done : (pictureFades c).outcome = .ok filters) :
    ∀ f ∈ filters, Fades "fade" f := by
  unfold pictureFades at done
  split at done
  · exact filtersFade done
  · cases done
    exact nofun

end

inductive Closes : Filter → Prop
  | shrunk (width height : Int) : Closes
      ⟨"scale", [⟨none, .quoted ("min(iw," ++ toString width ++ ")")⟩,
        ⟨none, .quoted ("min(ih," ++ toString height ++ ")")⟩,
        named "force_original_aspect_ratio" "decrease"]⟩
  | centered (width height color : String) : Closes
      ⟨"pad", [placed width, placed height, placed "(ow-iw)/2", placed "(oh-ih)/2",
        named "color" color]⟩
  | matched {name : String} (value : String) (adapts : name ∈ ["setsar", "fps", "format"]) :
      Closes ⟨name, [placed value]⟩
  | faded (length : String) : Closes (fadingIn "fade" length)
  | joined : Closes ⟨"concat", [named "n" "2", named "v" "1", named "a" "0"]⟩

theorem joinCloses (fps : Option Int) : ∀ f ∈ joinFilters fps, Closes f := by
  unfold joinFilters
  cases effectiveRate fps with
  | none =>
    simp only [List.cons_append, List.nil_append, List.forall_mem_cons]
    exact ⟨.matched _ (by simp), .matched _ (by simp), nofun⟩
  | some rate =>
    simp only [List.cons_append, List.nil_append, List.forall_mem_cons]
    exact ⟨.matched _ (by simp), .matched _ (by simp), .matched _ (by simp), nofun⟩

theorem stillCloses {s : Still ν} {source output : String} {size : Int × Int} {fps : Option Int}
    {chain : Chain} (done : stillChain s source output size fps = .ok chain) :
    ∀ f ∈ chain.filters, Closes f := by
  obtain ⟨fades, entered, same⟩ := bindOk.mp done
  cases same
  refine List.forall_mem_append.mpr ⟨List.forall_mem_append.mpr ⟨?_, joinCloses fps⟩, ?_⟩
  · simp only [List.forall_mem_cons]
    exact ⟨.shrunk _ _, .centered _ _ _, nofun⟩
  · intro f inside
    obtain ⟨d, rfl⟩ := fadeInMade entered f inside
    exact .faded d

end OverlayMotion.Graph
