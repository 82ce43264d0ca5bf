import BoxLayout.Snapshot.Restore
import BoxLayout.Proofs.Forest.Reachable

namespace BoxLayout

-- A snapshot is restored by calls anyone could make, so what holds after all calls
-- holds of every forest that came out of a file.

def Result.Leads (result : Result Forest) : Prop := ∀ f, result = .ok f → f.Reachable

namespace Result.Leads
variable {f : Forest}

theorem error (e : LayoutError) : Leads (.error e) := nofun

theorem thrown {α : Type} {next : α → Result Forest} (e : LayoutError) : Leads (throw e >>= next) := nofun

theorem pure (path : f.Reachable) : Leads (.ok f) := by
  intro g done
  cases done
  exact path

theorem bind {result : Result Forest} {next : Forest → Result Forest} (leads : Leads result)
    (further : ∀ f, f.Reachable → Leads (next f)) : Leads (result >>= next) := by
  cases result with
  | error e => exact error e
  | ok f => exact further f (leads f rfl)

theorem apply (path : f.Reachable) (command : Command) : Leads (command.apply f) := fun _ done => .step path done

theorem foldlM {α : Type} {step : Forest → α → Result Forest} (leads : ∀ f a, f.Reachable → Leads (step f a))
    (path : f.Reachable) (list : List α) : Leads (list.foldlM step f) := by
  induction list generalizing f with
  | nil => exact .pure path
  | cons a rest ih => exact (leads f a path).bind fun g further => ih further

end Result.Leads

open Result

theorem Node.settle_leads {f : Forest} (path : f.Reachable) (node : Node) : Leads (node.settle f) := by
  have settings : ∀ f : Forest, f.Reachable → Leads (f.setLayoutFlags node.handle (.ofWord node.layoutFlags) >>= fun f =>
      f.setSize node.handle node.fixedSize >>= fun f => f.setMinimumSize node.handle node.minimumSize >>= fun f =>
      f.setMaximumSize node.handle node.maximumSize >>= fun f => f.setMargins node.handle node.margins >>= fun f =>
      f.setPadding node.handle node.padding >>= fun f =>
      f.setFloatingPosition node.handle node.floatingPosition >>= fun f => f.setTag node.handle node.tag >>= fun f =>
      f.setRect node.handle node.rect) := by
    intro f path
    refine (Leads.apply path (.setLayoutFlags _ _)).bind fun f path => ?_
    refine (Leads.apply path (.setSize _ _)).bind fun f path => ?_
    refine (Leads.apply path (.setMinimumSize _ _)).bind fun f path => ?_
    refine (Leads.apply path (.setMaximumSize _ _)).bind fun f path => ?_
    refine (Leads.apply path (.setMargins _ _)).bind fun f path => ?_
    refine (Leads.apply path (.setPadding _ _)).bind fun f path => ?_
    refine (Leads.apply path (.setFloatingPosition _ _)).bind fun f path => ?_
    refine (Leads.apply path (.setTag _ _)).bind fun f path => ?_
    exact Leads.apply path (.setRect _ _)
  unfold Node.settle
  dsimp only
  split
  · exact .thrown _
  · split
    · refine (Leads.pure path).bind fun f path => ?_
      split
      · exact .thrown _
      · exact settings f path
    · refine (Leads.apply path (.setContainerFlags _ _)).bind fun f path => ?_
      split
      · exact .thrown _
      · exact settings f path

theorem Node.attach_leads {f : Forest} (path : f.Reachable) (node : Node) : Leads (node.attach f) := by
  unfold Node.attach
  split
  · exact .apply path (.insertAtEnd _ _)
  · exact .pure path

theorem Snapshot.blank_reachable (more : Nat) : (Snapshot.blank more).Reachable := by
  induction more with
  | zero => exact .new
  | succ more ih => exact ih.step (show Command.create.apply _ = .ok _ from rfl)

theorem Snapshot.restore_leads (s : Snapshot) : Leads s.restore := by
  unfold Snapshot.restore
  dsimp only
  split
  · exact .thrown _
  · split
    · exact .thrown _
    · split
      · exact .thrown _
      · refine (Leads.foldlM (fun f node path => node.settle_leads path) (blank_reachable _) _).bind fun f path => ?_
        exact Leads.foldlM (fun f node path => node.attach_leads path) path _

end BoxLayout
