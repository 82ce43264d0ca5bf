import BoxLayout.Forest.Insert
import BoxLayout.Forest.Settings
import BoxLayout.Forest.Update

namespace BoxLayout

-- Every call that changes a forest, as a value.

inductive Command where
  | create
  | createChild (parent : Key)
  | clear
  | insertAtEnd (parent child : Key)
  | insertAtStart (parent child : Key)
  | insertBefore (next child : Key)
  | insertAfter (previous child : Key)
  | setContainerFlags (key : Key) (flags : ContainerFlags)
  | setLayoutFlags (key : Key) (flags : LayoutFlags)
  | setSize (key : Key) (size : PerAxis Single)
  | setMinimumSize (key : Key) (size : PerAxis Single)
  | setMaximumSize (key : Key) (size : PerAxis Single)
  | setMargins (key : Key) (margins : Spacing)
  | setPadding (key : Key) (padding : Spacing)
  | setFloatingPosition (key : Key) (position : PerAxis Single)
  | setTag (key : Key) (tag : Word)
  | setRect (key : Key) (rect : Rect)
  | update
  | updateSubtree (key : Key)
  deriving DecidableEq

namespace Command

def apply (f : Forest) : Command → Result Forest
  | .create => .ok f.create.2
  | .createChild parent => (f.createChild parent).map (·.2)
  | .clear => .ok .new
  | .insertAtEnd parent child => f.insertAtEnd parent child
  | .insertAtStart parent child => f.insertAtStart parent child
  | .insertBefore next child => f.insertBefore next child
  | .insertAfter previous child => f.insertAfter previous child
  | .setContainerFlags key flags => f.setContainerFlags key flags
  | .setLayoutFlags key flags => f.setLayoutFlags key flags
  | .setSize key size => f.setSize key size
  | .setMinimumSize key size => f.setMinimumSize key size
  | .setMaximumSize key size => f.setMaximumSize key size
  | .setMargins key margins => f.setMargins key margins
  | .setPadding key padding => f.setPadding key padding
  | .setFloatingPosition key position => f.setFloatingPosition key position
  | .setTag key tag => f.setTag key tag
  | .setRect key rect => f.setRect key rect
  | .update => .ok f.update
  | .updateSubtree key => f.updateSubtree key

end Command
end BoxLayout
