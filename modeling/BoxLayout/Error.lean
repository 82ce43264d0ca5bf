import BoxLayout.Number.Text
import BoxLayout.Key
import BoxLayout.Axis
import BoxLayout.Flags.Container

namespace BoxLayout

-- Why a call on a forest of controls or on a snapshot fails.

inductive SnapshotFault where
  | unsupportedVersion (found : Word)
  | unexpectedKey (key : Key)
  | noRoot
  | unknownContainerFlags (key : Key)
  | unknownLayoutFlags (key : Key)
  | malformed
  | unreachable (path reason : String)
  deriving DecidableEq

inductive LayoutError where
  | invalidKey (key : Key)
  | alreadyParented (key : Key)
  | rootInsertion
  | selfInsertion (key : Key)
  | noParent (key : Key)
  | invalidContainerFlags (flags : ContainerFlags)
  | constraintViolation (key : Key) (axis : Axis) (size minimum maximum : Single)
  | snapshot (fault : SnapshotFault)
  deriving DecidableEq

def snapshotVersion : Word := 1

def SnapshotFault.message : SnapshotFault → String
  | .unsupportedVersion found =>
      "unsupported version " ++ wordText found ++ " (expected " ++ wordText snapshotVersion ++ ")"
  | .unexpectedKey key => "unexpected key " ++ key.text
  | .noRoot => "no root control"
  | .unknownContainerFlags key => "unknown container flags on " ++ key.text
  | .unknownLayoutFlags key => "unknown layout flags on " ++ key.text
  | .malformed => "not the JSON text of a snapshot"
  | .unreachable path reason => path ++ ": " ++ reason

namespace LayoutError

def message : LayoutError → String
  | .invalidKey key => "Invalid control key: " ++ key.text
  | .alreadyParented key => "Control " ++ key.text ++ " already has a parent"
  | .rootInsertion => "The root control cannot be inserted into the tree"
  | .selfInsertion key => "Control " ++ key.text ++ " cannot be inserted relative to itself"
  | .noParent key => "Control " ++ key.text ++ " has no parent to insert a sibling under"
  | .invalidContainerFlags flags =>
      "Container flags must contain exactly one of Row or Column, got " ++ flags.describe
  | .constraintViolation key axis size minimum maximum =>
      "Control " ++ key.text ++ " violates its " ++ axis.name ++ " constraints: size " ++
        size.toText ++ " outside [" ++ minimum.toText ++ ", " ++ maximum.toText ++ "]"
  | .snapshot fault => "Invalid layout snapshot: " ++ fault.message

end LayoutError
end BoxLayout
