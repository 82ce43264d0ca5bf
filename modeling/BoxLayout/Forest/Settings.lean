import BoxLayout.Forest.Basic

namespace BoxLayout.Forest

-- What the caller sets on one control.

def setContainerFlags (f : Forest) (key : Key) (flags : ContainerFlags) : Result Forest :=
  if flags.Directed then f.modifyBox key ({ · with container := flags })
  else .error (.invalidContainerFlags flags)

-- Fixed and break markers stay as they are.
def setLayoutFlags (f : Forest) (key : Key) (flags : LayoutFlags) : Result Forest :=
  f.modifyBox key fun b => { b with flags := flags.withMarkersOf b.flags }

-- A positive component fixes the size on its axis; any other leaves the axis to the content.
def fixedAt (size : Single) : Single := if 0 < size then size else unset

def setSize (f : Forest) (key : Key) (size : PerAxis Single) : Result Forest :=
  f.modifyBox key fun b =>
    { b with
      fixedSize := size.map fixedAt
      flags := { b.flags with fixed := size.map fun component => decide (0 < component) } }

def setMinimumSize (f : Forest) (key : Key) (size : PerAxis Single) : Result Forest :=
  f.modifyBox key ({ · with minimumSize := size })

def setMaximumSize (f : Forest) (key : Key) (size : PerAxis Single) : Result Forest :=
  f.modifyBox key ({ · with maximumSize := size })

def setMargins (f : Forest) (key : Key) (margins : Spacing) : Result Forest :=
  f.modifyBox key ({ · with margins := margins })

def setPadding (f : Forest) (key : Key) (padding : Spacing) : Result Forest :=
  f.modifyBox key ({ · with padding := padding })

def setFloatingPosition (f : Forest) (key : Key) (position : PerAxis Single) : Result Forest :=
  f.modifyBox key ({ · with floatingPosition := position })

def setRect (f : Forest) (key : Key) (rect : Rect) : Result Forest :=
  f.modifyBox key ({ · with rect := rect })

def setTag (f : Forest) (key : Key) (tag : Word) : Result Forest := do
  let _ ← f.validate key
  return f.edit key ({ · with tag := tag })

end BoxLayout.Forest
