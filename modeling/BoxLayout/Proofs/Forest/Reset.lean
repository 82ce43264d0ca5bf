import BoxLayout.Proofs.Forest.Reachable

namespace BoxLayout

-- What each call makes of the boxes, layouts aside.

namespace Forest

theorem box_initial (key : Key) : new.box key = .new := by
  by_cases present : new.Contains key
  · rw [contains_new.mp present]
    rfl
  · simp only [box,controls_of_missing present]

end Forest
open Forest

-- What a call that lays nothing out leaves of a box: it is as it was, or new, or one of
-- its settings is.
inductive Box.Reset (a : Box) : Box → Prop where
  | same : Reset a a
  | new : Reset a .new
  | container {flags : ContainerFlags} : flags.Directed → Reset a { a with container := flags }
  | flags (flags : LayoutFlags) : Reset a { a with flags := flags.withMarkersOf a.flags }
  | fixedSize (size : PerAxis Single) : Reset a
      { a with
        fixedSize := size.map fixedAt
        flags := { a.flags with fixed := size.map fun component => decide (0 < component) } }
  | margins (margins : Spacing) : Reset a { a with margins := margins }
  | padding (padding : Spacing) : Reset a { a with padding := padding }
  | minimumSize (size : PerAxis Single) : Reset a { a with minimumSize := size }
  | maximumSize (size : PerAxis Single) : Reset a { a with maximumSize := size }
  | floatingPosition (position : PerAxis Single) : Reset a { a with floatingPosition := position }
  | rect (rect : Rect) : Reset a { a with rect := rect }

def Command.laysOut : Command → Bool
  | .update | .updateSubtree _ => true
  | _ => false

def Command.setting? : Command → Option (Box → Box)
  | .setContainerFlags _ flags => some ({ · with container := flags })
  | .setLayoutFlags _ flags => some fun b => { b with flags := flags.withMarkersOf b.flags }
  | .setSize _ size => some fun b =>
      { b with
        fixedSize := size.map fixedAt
        flags := { b.flags with fixed := size.map fun component => decide (0 < component) } }
  | .setMinimumSize _ size => some ({ · with minimumSize := size })
  | .setMaximumSize _ size => some ({ · with maximumSize := size })
  | .setMargins _ margins => some ({ · with margins := margins })
  | .setPadding _ padding => some ({ · with padding := padding })
  | .setFloatingPosition _ position => some ({ · with floatingPosition := position })
  | .setRect _ rect => some ({ · with rect := rect })
  | _ => none

variable {f g : Forest} {command : Command}

theorem Command.box_cases (linked : f.Linked) (done : command.apply f = .ok g) (sets : command.laysOut = false) (key : Key) :
    g.box key = f.box key ∨ g.box key = .new ∨ ∃ set, command.setting? = some set ∧ g.box key = set (f.box key) := by
  have edited : ∀ {other change}, f.modifyBox other change = .ok g → command.setting? = some change →
      g.box key = f.box key ∨ g.box key = .new ∨ ∃ set, command.setting? = some set ∧ g.box key = set (f.box key) := by
    intro other change done named
    obtain ⟨_,rfl⟩ := modifyBox_ok done
    rcases box_editBox_cases f other key change with kept | ⟨_,changed⟩
    · exact .inl kept
    · exact .inr (.inr ⟨change,named,changed⟩)
  cases command with
  | create =>
      cases done
      exact .inl (box_create f key)
  | createChild parent =>
      simp only [Command.apply] at done
      cases made : f.createChild parent with
      | error e => simp [made,Except.map] at done
      | ok pair =>
          obtain ⟨child,next⟩ := pair
          rw [made] at done
          cases done
          obtain ⟨_,rfl,inserted⟩ := createChild_ok made
          obtain ⟨_,_,rfl⟩ := insertAtEnd_spliced (linked_create linked) inserted
          exact .inl (by rw [spliced,box_splice,box_create])
  | clear =>
      cases done
      exact .inr (.inl (box_initial key))
  | insertAtEnd parent child =>
      obtain ⟨_,_,rfl⟩ := insertAtEnd_spliced linked done
      exact .inl (box_splice ..)
  | insertAtStart parent child =>
      obtain ⟨_,_,rfl⟩ := insertAtStart_spliced linked done
      exact .inl (box_splice ..)
  | insertBefore next child =>
      obtain ⟨_,_,_,_,_,rfl⟩ := insertBefore_spliced linked done
      exact .inl (box_splice ..)
  | insertAfter previous child =>
      obtain ⟨_,_,_,_,_,rfl⟩ := insertAfter_spliced linked done
      exact .inl (box_splice ..)
  | setContainerFlags key flags =>
      obtain ⟨directed,_,_⟩ := setContainerFlags_ok done
      exact edited ((if_pos directed).symm.trans done) rfl
  | setTag key tag =>
      obtain ⟨_,rfl⟩ := setTag_ok done
      exact .inl (box_edit _ _ _ _ fun _ => rfl)
  | setLayoutFlags | setSize | setMinimumSize | setMaximumSize | setMargins | setPadding | setFloatingPosition | setRect =>
      exact edited done rfl
  | update | updateSubtree => cases sets

theorem Command.box_reset (linked : f.Linked) (done : command.apply f = .ok g) (sets : command.laysOut = false) (key : Key) :
    (f.box key).Reset (g.box key) := by
  rcases Command.box_cases linked done sets key with same | fresh | ⟨set,named,changed⟩
  · exact same ▸ .same
  · exact fresh ▸ .new
  · rw [changed]
    cases command with
    | setContainerFlags key flags =>
        cases named
        exact .container (setContainerFlags_ok done).1
    | setLayoutFlags key flags => cases named; exact .flags flags
    | setSize key size => cases named; exact .fixedSize size
    | setMinimumSize key size => cases named; exact .minimumSize size
    | setMaximumSize key size => cases named; exact .maximumSize size
    | setMargins key margins => cases named; exact .margins margins
    | setPadding key padding => cases named; exact .padding padding
    | setFloatingPosition key position => cases named; exact .floatingPosition position
    | setRect key rect => cases named; exact .rect rect
    | _ => cases named

end BoxLayout
