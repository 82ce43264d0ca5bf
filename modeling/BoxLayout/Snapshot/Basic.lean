import BoxLayout.Key
import BoxLayout.Geometry

namespace BoxLayout

-- Captured trees: what every control was given and where it was last placed.

structure Node where
  key : Word
  parent : Word
  containerFlags : Word
  layoutFlags : Word
  margins : Spacing
  padding : Spacing
  fixedSize : PerAxis Single
  minimumSize : PerAxis Single
  maximumSize : PerAxis Single
  floatingPosition : PerAxis Single
  tag : Word
  rect : Rect
  deriving DecidableEq

structure Snapshot where
  version : Word
  nodes : List Node
  deriving DecidableEq

def Node.plain (key : Word) : Node where
  key := key
  parent := Key.reserved.toWord
  containerFlags := 0
  layoutFlags := 0
  margins := .zero
  padding := .zero
  fixedSize := .both unset
  minimumSize := .both unset
  maximumSize := .both unset
  floatingPosition := .both 0
  tag := 0
  rect := .zero

end BoxLayout
