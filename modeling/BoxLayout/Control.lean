import BoxLayout.Key
import BoxLayout.Geometry
import BoxLayout.Flags.Container
import BoxLayout.Flags.Layout

namespace BoxLayout

-- One control: its place among the others, and what layout reads and writes.

structure Links where
  parent : Option Key
  firstChild : Option Key
  lastChild : Option Key
  previousSibling : Option Key
  nextSibling : Option Key
  deriving DecidableEq

def Links.none : Links := ⟨.none,.none,.none,.none,.none⟩

instance : Inhabited Links := ⟨Links.none⟩

-- Negative components of the fixed, minimum and maximum size are unset. The
-- floating position counts inside the parent's content, and the content size is
-- the one the last size pass found, padding included.
structure Box where
  container : ContainerFlags
  flags : LayoutFlags
  margins : Spacing
  padding : Spacing
  fixedSize : PerAxis Single
  minimumSize : PerAxis Single
  maximumSize : PerAxis Single
  floatingPosition : PerAxis Single
  contentSize : PerAxis Single
  rect : Rect
  deriving DecidableEq

namespace Box

def new : Box where
  container := .empty
  flags := .empty
  margins := .zero
  padding := .zero
  fixedSize := .both unset
  minimumSize := .both unset
  maximumSize := .both unset
  floatingPosition := .both 0
  contentSize := .both 0
  rect := .zero

instance : Inhabited Box := ⟨new⟩

def arrangement (b : Box) : Arrangement := b.container.arrangement
def start (b : Box) (axis : Axis) : Single := b.rect.start axis
def extent (b : Box) (axis : Axis) : Single := b.rect.extent axis
def minimum (b : Box) (axis : Axis) : Single := b.minimumSize.get axis
def maximum (b : Box) (axis : Axis) : Single := b.maximumSize.get axis

def effectiveMinimum (b : Box) (axis : Axis) : Single :=
  if b.container.preventCrush.get axis then max (b.minimum axis) (b.contentSize.get axis)
  else b.minimum axis

def bounded (b : Box) (axis : Axis) (size : Single) : Single :=
  constrain size (b.effectiveMinimum axis) (b.maximum axis)

def outerExtent (b : Box) (axis : Axis) : Single :=
  b.margins.start axis + b.extent axis + b.margins.finish axis

def reach (b : Box) (axis : Axis) : Single :=
  if b.flags.floating then b.floatingPosition.get axis + b.outerExtent axis else b.outerExtent axis

def contentRect (b : Box) : Rect := b.rect.inset b.padding
def contentSpan (b : Box) (axis : Axis) : Span := b.contentRect.span axis

def withStart (b : Box) (axis : Axis) (value : Single) : Box := { b with rect := b.rect.withStart axis value }
def withExtent (b : Box) (axis : Axis) (value : Single) : Box := { b with rect := b.rect.withExtent axis value }
def withContent (b : Box) (axis : Axis) (value : Single) : Box :=
  { b with contentSize := b.contentSize.set axis value }
def withBreak (b : Box) (value : Bool) : Box := { b with flags := { b.flags with isBreak := value } }

def swap (b : Box) : Box where
  container := b.container.swap
  flags := b.flags.swap
  margins := b.margins.swap
  padding := b.padding.swap
  fixedSize := b.fixedSize.swap
  minimumSize := b.minimumSize.swap
  maximumSize := b.maximumSize.swap
  floatingPosition := b.floatingPosition.swap
  contentSize := b.contentSize.swap
  rect := b.rect.swap

end Box

-- The tag classifies a control for its user; layout never looks at it.
structure Control where
  key : Key
  links : Links
  tag : Word
  box : Box
  deriving DecidableEq

namespace Control

def new (key : Key) : Control := ⟨key,.none,0,.new⟩
def root : Control := { new .root with tag := 1 }

instance : Inhabited Control := ⟨root⟩

end Control
end BoxLayout
