import BoxLayout.Layout.Run
import BoxLayout.Layout.Size

namespace BoxLayout

-- Children of one container placed on one axis. A size found by the size pass is
-- a request; positions become absolute.

namespace Box

def overlaidIn (b : Box) (axis : Axis) (span : Span) : Box :=
  let start := b.margins.start axis
  let finish := b.margins.finish axis
  match b.flags.anchor.get axis with
  | .center => b.withStart axis (span.offset + (start + (span.space - start - finish - b.extent axis) / 2))
  | .finish => b.withStart axis (span.offset + (span.space - b.extent axis - finish))
  | .fill =>
      (b.withExtent axis (b.bounded axis (span.space - start - finish).positivePart)).withStart axis
        (span.offset + start)
  | .start => b.withStart axis (span.offset + start)

def squeezedIn (b : Box) (axis : Axis) (span : Span) (constrained : Bool) : Box :=
  let start := b.margins.start axis
  let finish := b.margins.finish axis
  let available := (span.space - start - finish).positivePart
  let anchor := b.flags.anchor.get axis
  let wanted := if anchor = .fill then available else min (b.extent axis) available
  let maximum := b.maximum axis
  let maximum :=
    if constrained then (if IsSet maximum then min maximum available else available) else maximum
  let size := constrain wanted (b.effectiveMinimum axis) maximum
  let position := match anchor with
    | .center => start + (available - size) / 2
    | .finish => span.space - size - finish
    | .start | .fill => start
  (b.withStart axis (span.offset + position)).withExtent axis size

def floatedIn (b : Box) (axis : Axis) (span : Span) : Box :=
  let placed := b.withStart axis (span.offset + b.floatingPosition.get axis + b.margins.start axis)
  if b.flags.fills axis then
    placed.withExtent axis (b.bounded axis (span.space - b.margins.total axis).positivePart)
  else placed

def clippedTo (b : Box) (axis : Axis) (clip : Option Span) : Box :=
  match clip with
  | none => b
  | some span =>
      let limit := (span.finish - b.start axis).positivePart
      if limit < b.extent axis then b.withExtent axis limit else b

end Box

namespace Run

-- How a run's leftover space, or what it lacks, is handed out: a size for each
-- filler, a gap between children, a gap before the first, and what each flexible
-- child is given (a negative amount).
structure Shares where
  filler : Single
  gap : Single
  lead : Single
  eater : Single
  deriving DecidableEq

def Shares.none : Shares := ⟨0,0,0,0⟩

-- The last run of a wrapping container is never justified, and only a container
-- that does not wrap squeezes.
def shares (run : Run) (space : Single) (alignment : Alignment) (wrap last : Bool) : Shares :=
  let extra := space - run.used
  if 0 < extra then
    if 0 < run.fillers then { Shares.none with filler := extra / .ofNat run.fillers }
    else if run.total = 0 then .none
    else match alignment with
      | .justify =>
          if 1 < run.total ∧ (wrap && last) = false then
            { Shares.none with gap := extra / .ofNat (run.total - 1) }
          else .none
      | .finish => { Shares.none with lead := extra }
      | .center => { Shares.none with lead := extra / 2 }
      | .start => .none
  else if wrap = false ∧ 0 < run.squeezed then
    { Shares.none with eater := extra / .ofNat run.squeezed }
  else .none

def Shares.ideal (shares : Shares) (axis : Axis) (b : Box) : Single :=
  if b.flags.fills axis then shares.filler
  else if b.flags.fixed.get axis then b.extent axis
  else (b.extent axis + shares.eater).positivePart

def Shares.first (shares : Shares) (axis : Axis) (b : Box) : Single :=
  b.bounded axis (shares.ideal axis b)

def Shares.Open (shares : Shares) (axis : Axis) (b : Box) : Prop :=
  b.flags.fills axis = true ∧ (shares.first axis b).Same (shares.ideal axis b)

instance (shares : Shares) (axis : Axis) (b : Box) : Decidable (shares.Open axis b) := by
  unfold Shares.Open; infer_instance

def Shares.freed (shares : Shares) (axis : Axis) (flow : List Box) : Single :=
  BoxLayout.total (flow.map fun b => shares.ideal axis b - shares.first axis b)

def Shares.bonus (shares : Shares) (axis : Axis) (flow : List Box) : Single :=
  let takers := (flow.filter fun b => shares.Open axis b).length
  if 0 < takers then shares.freed axis flow / .ofNat takers else 0

def Shares.final (shares : Shares) (axis : Axis) (bonus : Single) (b : Box) : Single :=
  if shares.Open axis b ∧ ¬ bonus.Same 0 then b.bounded axis (shares.first axis b + bonus)
  else shares.first axis b

def Shares.placeFrom (shares : Shares) (axis : Axis) (bonus : Single) :
    Single → Single → List Box → List Box
  | _,_,[] => []
  | cursor,gap,b :: rest =>
      if b.flags.inFlow = false then b :: shares.placeFrom axis bonus cursor gap rest
      else
        let size := shares.final axis bonus b
        let start := cursor + (b.margins.start axis + gap)
        (b.withStart axis start).withExtent axis size ::
          shares.placeFrom axis bonus (start + (size + b.margins.finish axis)) shares.gap rest

def place (run : Run) (axis : Axis) (span : Span) (alignment : Alignment) (wrap last : Bool) : List Box :=
  let shares := run.shares span.space alignment wrap last
  let bonus := shares.bonus axis (run.members.filter (·.flags.inFlow))
  shares.placeFrom axis bonus span.offset shares.lead run.members

def placeAll (axis : Axis) (span : Span) (alignment : Alignment) (wrap : Bool) : List Run → List Box
  | [] => []
  | [run] => run.place axis span alignment wrap true
  | run :: rest => run.place axis span alignment wrap false ++ placeAll axis span alignment wrap rest

end Run

namespace Box

def overlayChildren (axis : Axis) (span : Span) (children : List Box) : List Box :=
  children.map fun b => if b.flags.floating then b else b.overlaidIn axis span

def squeezeChildren (axis : Axis) (span : Span) (constrained : Bool) (children : List Box) : List Box :=
  children.map fun b => if b.flags.floating then b else b.squeezedIn axis span constrained

def runNeed (axis : Axis) (run : List Box) : Single :=
  largest ((run.filter fun b => !b.flags.floating).map (·.outerExtent axis))

def squeezeRuns (axis : Axis) (constrained : Bool) : Single → List (List Box) → List Box
  | _,[] => []
  | offset,run :: rest =>
      squeezeChildren axis ⟨offset,runNeed axis run⟩ constrained run ++
        squeezeRuns axis constrained (offset + runNeed axis run) rest

-- Stacked children lie over the runs and take the whole span.
def stackChildren (axis : Axis) (span : Span) (alignment : Alignment) (wrap constrained : Bool)
    (children : List Box) : List Box :=
  let children := if wrap then children.map (·.withBreak false) else children
  (Run.placeAll axis span alignment wrap (Run.build axis span.space wrap .empty children)).map fun b =>
    if b.flags.stacked && !b.flags.floating then b.squeezedIn axis span constrained else b

-- Across a wrapping column the runs are those of the breaks marked so far.
def placeChildren (b : Box) (axis : Axis) (children : List Box) : List Box :=
  let span := b.contentSpan axis
  let constrained := b.container.constrainSize
  if b.arrangement.primaryAxis? = some axis then
    stackChildren axis span b.container.alignment b.arrangement.wraps constrained children
  else if b.arrangement.wraps then squeezeRuns axis constrained span.offset (splitBefore opensRun children)
  else if b.arrangement = .free then overlayChildren axis span children
  else squeezeChildren axis span constrained children

end Box
end BoxLayout
