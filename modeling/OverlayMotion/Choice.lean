import OverlayMotion.Expr
import OverlayMotion.Text.Spelling
/-! What is chosen by name: the kind of a motion, its easing, and how an image fills a box.
An easing has a curve, which maps the progress of a phase, from 0 to 1, onto the share of the
way that has been covered. -/
namespace OverlayMotion

inductive Effect
  | fade
  | slideUp
  | slideDown
  | slideLeft
  | slideRight
  | zoom
  | none
  deriving DecidableEq, Repr

namespace Effect

def all : List Effect := [fade, slideUp, slideDown, slideLeft, slideRight, zoom, none]

def name : Effect → String
  | fade => "fade"
  | slideUp => "slide-up"
  | slideDown => "slide-down"
  | slideLeft => "slide-left"
  | slideRight => "slide-right"
  | zoom => "zoom"
  | none => "none"

def ofName? (given : String) : Option Effect :=
  all.find? fun e => e.name == Text.separated given

end Effect

inductive Easing
  | linear
  | easeIn
  | easeOut
  | easeInOut
  deriving DecidableEq, Repr

namespace Easing

def all : List Easing := [linear, easeIn, easeOut, easeInOut]

def name : Easing → String
  | linear => "linear"
  | easeIn => "ease-in"
  | easeOut => "ease-out"
  | easeInOut => "ease-in-out"

def ofName? (given : String) : Option Easing :=
  all.find? fun e => e.name == Text.separated given

variable {ν : Type} [Number ν]

def curve (p : Expr ν) : Easing → Except (Expr.Failure ν) (Expr ν)
  | linear => .ok p
  | easeIn => p.pow (.ofInt 3)
  | easeOut => do
    let left ← Expr.ofFault ((Expr.ofInt 1).sub p)
    let cubed ← left.pow (.ofInt 3)
    Expr.ofFault ((Expr.ofInt 1).sub cubed)
  | easeInOut => do
    let squared ← p.pow (.ofInt 2)
    let first ← Expr.ofFault ((Expr.ofInt 3).mul squared)
    let cubed ← p.pow (.ofInt 3)
    let second ← Expr.ofFault ((Expr.ofInt 2).mul cubed)
    Expr.ofFault (first.sub second)

end Easing

inductive Fit
  | cover
  | contain
  deriving DecidableEq, Repr

namespace Fit

def all : List Fit := [cover, contain]

def name : Fit → String
  | cover => "cover"
  | contain => "contain"

def ofName? (given : String) : Option Fit := all.find? fun f => f.name == given

end Fit

end OverlayMotion
